import CodexLb.BridgeTransitions

/-!
# The coherence of the bridge under concurrent calls

What holds in every reachable state, whatever the interleaving: the registry is
consistent, one call at most is inside the locked block, a future stays with the
key it was made for and its result is a session of that key, and every call
knows at its await what `Phase.Knows` says. A call makes its future and its
session object once.
-/
namespace CodexLb.Bridge
open Runs Registry

/-- The call will not come to create a session again. -/
def Phase.created : Phase → Bool
  | .claiming _ | .registering _ | .closingCreated _ _ | .returned _ _ | .forwarded _ | .raised _ => true
  | .failing _ _ created => created
  | _ => false

/-- The call will not come to insert a future again. -/
def Phase.inserted : Phase → Bool
  | .closing l _ _ | .creating l => l.ownsCreation
  | .claiming _ | .registering _ | .failing _ _ _ | .closingCreated _ _ | .returned _ _
  | .forwarded _ | .raised _ => true
  | _ => false

structure Coherent (w : World) : Prop where
  registry : w.registry.Consistent
  slots : SlotsKeyed w.futureKey w.inflight
  results : ∀ (f : ℕ) (k : SessionKey) (sid : ℕ), w.futures.get? f = some ⟨k,.result sid⟩ →
    w.registry.keyOf sid = some k
  lock : ∀ (i : ℕ) (run : Running), w.calls.get? i = some run → run.phase.locked = true →
    w.lock = some i
  knows : ∀ (i : ℕ) (run : Running), w.calls.get? i = some run →
    run.phase.Knows w.registry.keyOf w.futureKey run.call.apiKeyId i
  vacant : ∀ (i : ℕ) (run : Running) (k : SessionKey), w.calls.get? i = some run →
    run.phase.counting = some k → w.inflight.get? k = none
  sessionFresh : ∀ (i : ℕ) (k : SessionKey), w.registry.keyOf i = some k →
    ∃ run, w.calls.get? i = some run ∧ run.phase.created = true
  futureFresh : ∀ (i : ℕ) (k : SessionKey), w.futureKey i = some k →
    ∃ run, w.calls.get? i = some run ∧ run.phase.inserted = true

/-- What a call knows stays true while sessions and futures only come in. -/
theorem Phase.Knows.mono {keyOf keyOf' futureKey futureKey' : ℕ → Option SessionKey}
    {a : Option String} {i : ℕ} {p : Phase} (h : p.Knows keyOf futureKey a i)
    (hkeys : ∀ sid k, keyOf sid = some k → keyOf' sid = some k)
    (hfutures : ∀ f k, futureKey f = some k → futureKey' f = some k) :
    p.Knows keyOf' futureKey' a i := by
  have htracked : ∀ {l : Locals}, l.Tracked keyOf futureKey a → l.Tracked keyOf' futureKey' a :=
    fun hl => ⟨hl.scope,fun sid hs => hkeys _ _ (hl.returns sid hs),
      fun f hf => hfutures _ _ (hl.future f hf),hl.notOwner,hl.noError,hl.noWait⟩
  have hcreating : ∀ {l : Locals}, l.Creating futureKey a i → l.Creating futureKey' a i :=
    fun hl => ⟨hl.scope,hl.future,fun howns => hfutures _ _ (hl.owned howns)⟩
  have hsession : ∀ {sid : ℕ}, OfApiKey keyOf a sid → OfApiKey keyOf' a sid :=
    fun ⟨k,hk,ha⟩ => ⟨k,hkeys _ _ hk,ha⟩
  cases p with
  | scanning l now rows stale => exact ⟨htracked h.1,h.2⟩
  | pruning l closing stale => exact ⟨htracked h.1,h.2⟩
  | owner l => exact ⟨htracked h.1,h.2⟩
  | refreshing l sid => exact ⟨htracked h.1,h.2.1,hkeys _ _ h.2.2⟩
  | evicting l => exact ⟨htracked h.1,h.2⟩
  | weighing l rows idle => exact ⟨htracked h.1,h.2⟩
  | closing l todo stage =>
    exact ⟨h.scope,fun sid hs => hkeys _ _ (h.returns sid hs),
      fun f hf => hfutures _ _ (h.future f hf),h.owner⟩
  | waitingInflight l f => exact ⟨h.1,hfutures _ _ h.2⟩
  | creating l => exact hcreating h
  | failing l exc created => exact hcreating h
  | claiming l => exact ⟨hcreating h.1,hkeys _ _ h.2⟩
  | registering l => exact ⟨hcreating h.1,hkeys _ _ h.2⟩
  | reusing sid => exact hsession h
  | returned sid accountId => exact hsession h
  | arriving | acquiring _ | waitingCapacity _ _ | dropping _ _ _ | closingJoined _ _ _
  | closingCreated _ _ | forwarded _ | raised _ => exact h

/-- Between two states: sessions and futures keep their keys, and only call `i`
makes new ones. -/
structure Grows (w t : World) (i : ℕ) : Prop where
  keys : ∀ sid k, w.registry.keyOf sid = some k → t.registry.keyOf sid = some k
  newKeys : ∀ sid k, t.registry.keyOf sid = some k → sid = i ∨ w.registry.keyOf sid = some k
  futures : ∀ f k, w.futureKey f = some k → t.futureKey f = some k
  newFutures : ∀ f k, t.futureKey f = some k → f = i ∨ w.futureKey f = some k

/-- The lock after a step of call `i` that ends at `p`: the step does not touch
it, or the call had it or found it free. -/
def LockStep (w t : World) (i : ℕ) (p : Phase) : Prop :=
  t.lock = w.lock ∧ p.locked = false ∨
    (∀ j, w.lock = some j → j = i) ∧ t.lock = if p.locked then some i else none

namespace Coherent
variable {w t : World} {i : ℕ} {run : Running} {p : Phase}

section
variable (h : Coherent w) (hrun : w.calls.get? i = some run)
include h hrun

theorem next (hcalls : t.calls = w.calls.set i {run with phase := p}) (hgrows : Grows w t i)
    (hregistry : t.registry.Consistent) (hslots : SlotsKeyed t.futureKey t.inflight)
    (hresults : ∀ f k sid, t.futures.get? f = some ⟨k,.result sid⟩ → t.registry.keyOf sid = some k)
    (hlock : LockStep w t i p) (hknows : p.Knows t.registry.keyOf t.futureKey run.call.apiKeyId i)
    (hvacant : ∀ j q k, w.calls.get? j = some q → j ≠ i → q.phase.counting = some k →
      t.inflight.get? k = none) (hcount : ∀ k, p.counting = some k → t.inflight.get? k = none)
    (hsession : t.registry.keyOf i ≠ none → p.created = true)
    (hfuture : t.futureKey i ≠ none → p.inserted = true) : Coherent t := by
  have hget : ∀ j, t.calls.get? j = if j = i then some {run with phase := p} else w.calls.get? j := by
    intro j
    rw [hcalls,Dict.get?_set]
  have hself : t.calls.get? i = some {run with phase := p} := by rw [hget,if_pos rfl]
  refine ⟨hregistry,hslots,hresults,?_,?_,?_,?_,?_⟩
  · intro j q hq hlocked
    rw [hget] at hq
    split_ifs at hq with hj
    · cases hq
      rcases hlock with ⟨-,hp⟩ | ⟨-,ht⟩
      · rw [show p.locked = true from hlocked] at hp
        cases hp
      · rw [ht,if_pos hlocked,hj]
    · have hw := h.lock j q hq hlocked
      rcases hlock with ⟨ht,-⟩ | ⟨hfree,-⟩
      · rw [ht,hw]
      · exact absurd (hfree j hw) hj
  · intro j q hq
    rw [hget] at hq
    split_ifs at hq with hj
    · cases hq
      subst hj
      exact hknows
    · exact (h.knows j q hq).mono hgrows.keys hgrows.futures
  · intro j q k hq hk
    rw [hget] at hq
    split_ifs at hq with hj
    · cases hq
      exact hcount k hk
    · exact hvacant j q k hq hj hk
  · intro j k hk
    by_cases hj : j = i
    · subst hj
      exact ⟨_,hself,hsession (by rw [hk]; simp)⟩
    · have hw := (hgrows.newKeys j k hk).resolve_left hj
      obtain ⟨q,hq,hc⟩ := h.sessionFresh j k hw
      exact ⟨q,by rw [hget,if_neg hj,hq],hc⟩
  · intro j k hk
    by_cases hj : j = i
    · subst hj
      exact ⟨_,hself,hfuture (by rw [hk]; simp)⟩
    · have hw := (hgrows.newFutures j k hk).resolve_left hj
      obtain ⟨q,hq,hc⟩ := h.futureFresh j k hw
      exact ⟨q,by rw [hget,if_neg hj,hq],hc⟩

/-- Before the creation the number of the call is no session object's. -/
theorem no_session (hphase : run.phase.created = false) : w.registry.keyOf i = none := by
  cases hk : w.registry.keyOf i with
  | none => rfl
  | some k =>
    obtain ⟨q,hq,hc⟩ := h.sessionFresh i k hk
    rw [hrun] at hq
    cases hq
    rw [hphase] at hc
    cases hc

theorem no_future (hphase : run.phase.inserted = false) : w.futureKey i = none := by
  cases hk : w.futureKey i with
  | none => rfl
  | some k =>
    obtain ⟨q,hq,hc⟩ := h.futureFresh i k hk
    rw [hrun] at hq
    cases hq
    rw [hphase] at hc
    cases hc

theorem move (hcalls : t.calls = w.calls.set i {run with phase := p})
    (hin : t.inflight = w.inflight) (hfut : t.futures = w.futures)
    (hsound : Sound w.registry t.registry) (hlock : LockStep w t i p)
    (hknows : p.Knows w.registry.keyOf w.futureKey run.call.apiKeyId i)
    (hcount : ∀ k, p.counting = some k → w.inflight.get? k = none)
    (hcreated : run.phase.created = true → p.created = true)
    (hinserted : run.phase.inserted = true → p.inserted = true) : Coherent t := by
  have hkeys : t.registry.keyOf = w.registry.keyOf := funext hsound.keyOf
  have hfutures : t.futureKey = w.futureKey := by
    funext f
    rw [World.futureKey,hfut]
    rfl
  refine h.next hrun hcalls ⟨?_,?_,?_,?_⟩ (hsound.consistent h.registry) ?_ ?_ hlock ?_ ?_ ?_ ?_ ?_
  · exact fun sid k hk => hkeys ▸ hk
  · exact fun sid k hk => .inr (hkeys ▸ hk)
  · exact fun f k hk => hfutures ▸ hk
  · exact fun f k hk => .inr (hfutures ▸ hk)
  · rw [hfutures,hin]
    exact h.slots
  · rw [hfut,hkeys]
    exact h.results
  · rw [hkeys,hfutures]
    exact hknows
  · rw [hin]
    exact fun j q k hq _ hk => h.vacant j q k hq hk
  · rw [hin]
    exact hcount
  · rw [hkeys]
    intro hk
    obtain ⟨k,hk⟩ := Option.ne_none_iff_exists'.mp hk
    obtain ⟨q,hq,hc⟩ := h.sessionFresh i k hk
    rw [hrun] at hq
    cases hq
    exact hcreated hc
  · rw [hfutures]
    intro hk
    obtain ⟨k,hk⟩ := Option.ne_none_iff_exists'.mp hk
    obtain ⟨q,hq,hc⟩ := h.futureFresh i k hk
    rw [hrun] at hq
    cases hq
    exact hinserted hc

end

variable {r : Registry}

section
variable (h : Coherent w) (hrun : w.calls.get? i = some run)
include h hrun

/-- A step outside the locked block that comes to an await outside of it. -/
theorem update (hsound : Sound w.registry r)
    (hknows : p.Knows w.registry.keyOf w.futureKey run.call.apiKeyId i)
    (hcount : p.counting = none) (hlocked : p.locked = false)
    (hcreated : run.phase.created = true → p.created = true)
    (hinserted : run.phase.inserted = true → p.inserted = true) :
    Coherent (w.update i run r p) := by
  refine h.move hrun rfl rfl rfl hsound (.inl ⟨rfl,hlocked⟩) hknows ?_ hcreated hinserted
  intro k hk
  rw [hcount] at hk
  cases hk

theorem rest (hknows : p.Knows w.registry.keyOf w.futureKey run.call.apiKeyId i)
    (hcount : p.counting = none) (hlocked : p.locked = false)
    (hcreated : run.phase.created = true → p.created = true)
    (hinserted : run.phase.inserted = true → p.inserted = true) : Coherent (w.rest i run p) :=
  h.update hrun (.refl _) hknows hcount hlocked hcreated hinserted

theorem holds (hlocked : run.phase.locked = true) {j : ℕ} (hj : w.lock = some j) : j = i := by
  rw [h.lock i run hrun hlocked] at hj
  exact (Option.some.inj hj).symm

end

theorem locked_fresh (h : p.locked = true) : p.created = false ∧ p.inserted = false := by
  cases p <;> first | exact ⟨rfl,rfl⟩ | cases h

section
variable (h : Coherent w)
include h

theorem leave (hrun : w.calls.get? i = some run) (hlocked : run.phase.locked = true)
    (hstage : Stage w.registry.keyOf w.futureKey run.call.apiKeyId i w.inflight w.registry (r,p)) :
    Coherent (w.leave i run r p) := by
  obtain ⟨hcreated,hinserted⟩ := locked_fresh hlocked
  refine h.move hrun rfl rfl rfl hstage.sound (.inr ⟨fun j => h.holds hrun hlocked,rfl⟩)
    hstage.knows hstage.vacant ?_ ?_
  · rw [hcreated]
    nofun
  · rw [hinserted]
    nofun

theorem complete (hrun : w.calls.get? i = some run) {l : Locals} {state : FutureState}
    (hkeys : r.keyOf = w.registry.keyOf) (hregistry : r.Consistent)
    (hresult : ∀ sid, state = .result sid → w.registry.keyOf sid = some l.key)
    (hknows : p.Knows w.registry.keyOf w.futureKey run.call.apiKeyId i)
    (hcount : p.counting = none) (hlocked : p.locked = false)
    (hcreated : run.phase.created = true → p.created = true) (hinserted : p.inserted = true) :
    Coherent ((w.completeSlot l state).update i run r p) := by
  obtain ⟨-,hcalls,hlock⟩ := completeSlot_frame w l state
  have hfutures : World.futureKey ((w.completeSlot l state).update i run r p) = w.futureKey :=
    completeSlot_futureKey w l state
  refine h.next hrun (by rw [World.update,hcalls]) ⟨?_,?_,?_,?_⟩ hregistry ?_ ?_
    (.inl ⟨hlock,hlocked⟩) ?_ ?_ ?_ ?_ (fun _ => hinserted)
  · exact fun sid k hk => hkeys ▸ hk
  · exact fun sid k hk => .inr (hkeys ▸ hk)
  · exact fun f k hk => hfutures ▸ hk
  · exact fun f k hk => .inr (hfutures ▸ hk)
  · rw [hfutures]
    exact fun k f hk => h.slots k f (completeSlot_inflight hk)
  · intro f k sid hf
    change r.keyOf sid = some k
    rw [hkeys]
    rcases completeSlot_result h.slots hf with hold | ⟨rfl,hstate⟩
    · exact h.results f k sid hold
    · exact hresult sid hstate
  · rw [hfutures]
    exact hkeys ▸ hknows
  · exact fun j q k hq _ hk => completeSlot_vacant (h.vacant j q k hq hk) l state
  · intro k hk
    rw [hcount] at hk
    cases hk
  · intro hk
    obtain ⟨k,hk⟩ := Option.ne_none_iff_exists'.mp hk
    change r.keyOf i = some k at hk
    rw [hkeys] at hk
    obtain ⟨q,hq,hc⟩ := h.sessionFresh i k hk
    rw [hrun] at hq
    cases hq
    exact hcreated hc

/-- A step that moves no call and makes no session and no future. -/
theorem ambient (hcalls : t.calls = w.calls) (hlock : t.lock = w.lock)
    (hkeys : t.registry.keyOf = w.registry.keyOf) (hfutures : t.futureKey = w.futureKey)
    (hregistry : t.registry.Consistent)
    (hin : ∀ k f, t.inflight.get? k = some f → w.inflight.get? k = some f)
    (hresults : ∀ f k sid, t.futures.get? f = some ⟨k,.result sid⟩ → w.futures.get? f = some
      ⟨k,.result sid⟩) : Coherent t := by
  refine ⟨hregistry,?_,?_,?_,?_,?_,?_,?_⟩
  · rw [hfutures]
    exact fun k f hk => h.slots k f (hin k f hk)
  · rw [hkeys]
    exact fun f k sid hf => h.results f k sid (hresults f k sid hf)
  · rw [hcalls,hlock]
    exact h.lock
  · rw [hcalls,hkeys,hfutures]
    exact h.knows
  · rw [hcalls]
    intro j q k hq hk
    have hold := h.vacant j q k hq hk
    cases hf : t.inflight.get? k with
    | none => rfl
    | some f =>
      rw [hin k f hf] at hold
      cases hold
  · rw [hcalls,hkeys]
    exact h.sessionFresh
  · rw [hcalls,hfutures]
    exact h.futureFresh

theorem ambient_registry (hkeys : ∀ sid, r.keyOf sid = w.registry.keyOf sid)
    (hregistry : r.Consistent) : Coherent {w with registry := r} :=
  h.ambient rfl rfl (funext hkeys) rfl hregistry (fun _ _ hk => hk) fun _ _ _ hf => hf

theorem ambient_sound (hsound : Sound w.registry r) : Coherent {w with registry := r} :=
  h.ambient_registry hsound.keyOf (hsound.consistent h.registry)

theorem call_coherent (hnew : w.calls.get? i = none) (c : Call) :
    Coherent {w with calls := w.calls.set i ⟨c,.arriving⟩} := by
  have hget : ∀ j, (w.calls.set i ⟨c,.arriving⟩).get? j =
      if j = i then some ⟨c,.arriving⟩ else w.calls.get? j := fun j => Dict.get?_set _ _ _ _
  have hold : ∀ {j q}, w.calls.get? j = some q →
      (w.calls.set i ⟨c,.arriving⟩).get? j = some q := by
    intro j q hq
    rw [hget,if_neg]
    · exact hq
    · rintro rfl
      rw [hnew] at hq
      cases hq
  refine ⟨h.registry,h.slots,h.results,?_,?_,?_,?_,?_⟩
  · intro j q hq hlocked
    rw [hget] at hq
    split_ifs at hq
    · cases hq
      cases hlocked
    · exact h.lock j q hq hlocked
  · intro j q hq
    rw [hget] at hq
    split_ifs at hq
    · cases hq
      trivial
    · exact h.knows j q hq
  · intro j q k hq hk
    rw [hget] at hq
    split_ifs at hq
    · cases hq
      cases hk
    · exact h.vacant j q k hq hk
  · intro j k hk
    obtain ⟨q,hq,hc⟩ := h.sessionFresh j k hk
    exact ⟨q,hold hq,hc⟩
  · intro j k hk
    obtain ⟨q,hq,hc⟩ := h.futureFresh j k hk
    exact ⟨q,hold hq,hc⟩

end

end Coherent

end CodexLb.Bridge
