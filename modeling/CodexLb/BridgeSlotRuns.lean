import CodexLb.BridgeSlots

/-!
# Slots over whole runs

The steps from the insertion on, the other operations, and the runs made of
steps that meet `SlotSafe`.
-/
namespace CodexLb.Bridge
open Runs Registry World

namespace SlotInv
variable {env : Env} {w t : World} {i : ℕ} {run : Running} {p q : Phase} {stage : CloseStage}

variable {sid : ℕ}

theorem closeStep_slot (hclose : closeStep i p = some (sid,stage,q)) :
    q.slot = p.slot ∧ (p.Bare → q.Bare) := by
  unfold closeStep at hclose
  split at hclose
  · cases hclose
    exact ⟨rfl,fun _ => trivial⟩
  · cases hclose
    split <;> exact ⟨rfl,id⟩
  · cases hclose
    split <;> exact ⟨rfl,fun _ => trivial⟩
  · cases hclose
    split <;> exact ⟨rfl,fun _ => trivial⟩
  · cases hclose

variable {l : Locals}

theorem dispatch_slot {r : Registry}
    (hl : l.ownsCreation = true → (l.ownerForward = none ∧ l.sessionToReturnAfterClose = none) ∧
      l.inflightFuture = some i ∧ l.continuityError = none ∧ l.capacityWaitFuture = none) :
    (dispatch r l).slot = l.slot ∧ (dispatch r l).Bare := by
  by_cases howns : l.ownsCreation = true
  · obtain ⟨⟨hforward,hreturn⟩,hfuture,herror,hwait⟩ := hl howns
    have hcreate : dispatch r l = .creating l := by
      simp [dispatch,hforward,hreturn,hfuture,herror,hwait,howns]
    rw [hcreate]
    exact ⟨rfl,trivial⟩
  · have hnone : l.slot = none := by simp [Locals.slot,howns]
    rw [hnone]
    unfold dispatch
    split
    · exact ⟨rfl,trivial⟩
    · exact ⟨rfl,trivial⟩
    · exact ⟨rfl,trivial⟩
    · split
      · exact ⟨rfl,trivial⟩
      · rw [if_neg howns]
        exact ⟨rfl,trivial⟩
      · exact ⟨hnone,trivial⟩

variable (h : SlotInv w)
include h

theorem dispatch_slots (hw : Coherent w) (hrun : w.calls.get? i = some run)
    {todo : List ℕ} (hp : run.phase = .closing l todo stage) :
    SlotInv (w.rest i run (dispatch w.registry l)) := by
  have hknows := hw.knows i run hrun
  have hbare := h.bare i run hrun
  rw [hp] at hknows hbare
  obtain ⟨hslot,hnext⟩ := dispatch_slot (r := w.registry) fun howns =>
    ⟨hbare howns,hknows.owner howns⟩
  refine h.move hrun ⟨rfl,rfl,rfl⟩ hnext ?_
  rw [hslot,hp]
  rfl

variable {state : FutureState}

omit h in
theorem completeSlot_pending (hstate : state ≠ .pending) {j : ℕ} {k : SessionKey}
    (hf : (w.completeSlot l state).futures.get? j = some ⟨k,.pending⟩) :
    w.futures.get? j = some ⟨k,.pending⟩ ∧
      ¬(w.inflight.get? l.key = l.inflightFuture ∧ l.inflightFuture = some j) := by
  unfold completeSlot at hf
  split_ifs at hf with hslot
  · cases hfuture : l.inflightFuture with
    | none =>
      simp only [hfuture] at hf
      exact ⟨hf,fun hboth => by cases hboth.2⟩
    | some g =>
      simp only [hfuture] at hf
      rcases complete_cases hf with hold | ⟨-,-,hs⟩
      · refine ⟨hold,?_⟩
        rintro ⟨-,hg⟩
        cases hg
        rw [complete,hold] at hf
        simp only [Dict.get?_set,if_true,Option.some.injEq,Future.mk.injEq,true_and] at hf
        exact hstate hf
      · exact absurd hs.symm hstate
  · exact ⟨hf,fun hboth => hslot hboth.1⟩

theorem complete_slots (hrun : w.calls.get? i = some run)
    (hslot : run.phase.slot = l.slot)
    (hfuture : l.inflightFuture = if l.ownsCreation then some i else none)
    (hstate : state ≠ .pending) (r : Registry) (hp : p.slot = none) :
    SlotInv ((w.completeSlot l state).update i run r p) := by
  obtain ⟨-,hcalls,-⟩ := completeSlot_frame w l state
  have hget : ∀ j, (update (w.completeSlot l state) i run r p).calls.get? j =
      if j = i then some {run with phase := p} else w.calls.get? j := by
    intro j
    rw [update,hcalls,Dict.get?_set]
  have hmine : ∀ k, w.inflight.get? k = some i →
      l.key = k ∧ w.inflight.get? l.key = l.inflightFuture ∧ l.inflightFuture = some i := by
    intro k hk
    obtain ⟨-,q,hq,hs⟩ := h.held k i hk
    rw [hrun] at hq
    cases hq
    obtain ⟨howns,rfl⟩ := slot_eq_some (hslot.symm.trans hs)
    rw [if_pos howns] at hfuture
    exact ⟨rfl,hk.trans hfuture.symm,hfuture⟩
  constructor
  · intro j q hq
    rw [hget] at hq
    split_ifs at hq
    · cases hq
      exact bare_of_slot hp
    · exact h.bare j q hq
  · intro k j hk
    have hold := completeSlot_inflight hk
    obtain ⟨hf,q,hq,hs⟩ := h.held k j hold
    have hj : j ≠ i := by
      rintro rfl
      obtain ⟨rfl,hsame,-⟩ := hmine k hold
      change (w.completeSlot l state).inflight.get? l.key = some j at hk
      rw [completeSlot,if_pos hsame] at hk
      simp [Dict.get?_pop] at hk
    refine ⟨?_,q,by rw [hget,if_neg hj,hq],hs⟩
    have hne : l.inflightFuture ≠ some j := by
      rw [hfuture]
      split_ifs
      · exact fun hi => hj (Option.some.inj hi).symm
      · simp
    exact (completeSlot_other hne state).trans hf
  · intro j k hf
    obtain ⟨hold,hother⟩ := completeSlot_pending hstate hf
    have hk := h.pending j k hold
    change (w.completeSlot l state).inflight.get? k = some j
    unfold completeSlot
    split_ifs with hsame
    · simp only [Dict.get?_pop]
      rw [if_neg]
      · exact hk
      · rintro rfl
        exact hother ⟨hsame,hsame.symm.trans hk⟩
    · exact hk

/-- An exception leaves the call without its slot only at the awaits whose
handler gives the slot back. -/
theorem cancel_slots (hrun : w.calls.get? i = some run)
    (hcancel : cancelTo run.phase = some q)
    (hsafe : run.phase.uncaught = true → run.phase.slot = none) : SlotInv (w.abort i run q) := by
  have hq : q.slot = run.phase.slot ∧ q.Bare := by
    cases hp : run.phase with
    | creating l | claiming l | registering l =>
      rw [hp] at hcancel
      cases hcancel
      exact ⟨rfl,trivial⟩
    | closing l todo stage =>
      rw [hp] at hcancel hsafe
      cases todo <;> cases hcancel
      exact ⟨(hsafe rfl).symm,trivial⟩
    | failing l exc created =>
      rw [hp] at hcancel hsafe
      cases hcancel
      exact ⟨(hsafe rfl).symm,trivial⟩
    | _ =>
      rw [hp] at hcancel
      cases hcancel <;> exact ⟨rfl,trivial⟩
  exact h.move hrun (p := q) ⟨rfl,rfl,rfl⟩ hq.2 hq.1

theorem closeFailed_slots (hrun : w.calls.get? i = some run)
    (hclose : closeStep i run.phase = some (sid,stage,q))
    (hsafe : run.phase.uncaught = true → run.phase.slot = none) (exc : Raised) :
    SlotInv (w.abort i run (.raised exc)) := by
  refine h.move hrun (p := .raised exc) ⟨rfl,rfl,rfl⟩ trivial ?_
  cases hp : run.phase with
  | pruning l closing stale | closingJoined l sid stage | closingCreated exc stage => rfl
  | closing l todo stage =>
    rw [hp] at hsafe
    exact (hsafe rfl).symm
  | _ =>
    rw [hp] at hclose
    cases hclose

variable {e : Event}

/-- One case for each transition; those before the insertion are all alike. -/
theorem callStep (hw : Coherent w) (hrun : w.calls.get? i = some run)
    (hsafe : SlotSafe w e) (hs : CallStep env w i run e run.phase q t) : SlotInv t := by
  have hc := hw.callStep hrun hs
  obtain ⟨c,p⟩ := run
  have hknows := hw.knows i _ hrun
  cases hs with
  | inserts hroom =>
    simp only [SlotSafe,hrun] at hsafe
    obtain ⟨hforward,hreturn⟩ := hsafe hroom
    exact h.insert_slots hrun rfl (hw.vacant i _ _ hrun rfl) hforward hreturn _ _ _
  | noRoomWaits hnone | noRoomFails hnone =>
    rcases hnone with ⟨-,rfl,-⟩ | ⟨-,_,_,rfl,-⟩
    all_goals exact h.early hw hc hrun rfl ⟨rfl,rfl,rfl⟩
  | close hclose =>
    obtain ⟨hslot,hbare⟩ := closeStep_slot hclose
    exact h.move hrun ⟨rfl,rfl,rfl⟩ (hbare (h.bare i _ hrun)) hslot
  | closeFails hclose =>
    simp only [SlotSafe,hrun] at hsafe
    exact h.closeFailed_slots hrun hclose hsafe _
  | proceed => exact h.dispatch_slots hw hrun rfl
  | created | claimed | createFails | claimFails => exact h.move hrun ⟨rfl,rfl,rfl⟩ trivial rfl
  | registered | registeredLate => exact h.complete_slots hrun rfl hknows.1.future (by nofun) _ rfl
  | @unwinds _ exc | @unwindCloses _ exc =>
    exact h.complete_slots hrun rfl hknows.future (by cases exc <;> nofun) _ rfl
  | cancel hcancel =>
    simp only [SlotSafe,hrun] at hsafe
    exact h.cancel_slots hrun hcancel hsafe
  | _ => exact h.early hw hc hrun rfl ⟨rfl,rfl,rfl⟩

theorem frame (hcalls : t.calls = w.calls) (hin : t.inflight = w.inflight)
    (hfut : t.futures = w.futures) : SlotInv t := by
  constructor
  · rw [hcalls]
    exact h.bare
  · rw [hin,hfut,hcalls]
    exact h.held
  · rw [hin,hfut]
    exact h.pending

theorem closeAll_slots (r : Registry) : SlotInv {w with
    registry := r
    inflight := Dict.empty
    futures := w.inflight.rows.foldl
      (fun fs q => complete fs q.2 (.exception (.proxy shutdownError))) w.futures} := by
  refine ⟨h.bare,fun _ _ hk => Dict.not_mem_empty hk,?_⟩
  intro j k hf
  have hstate : FutureState.exception (.proxy shutdownError) ≠ .pending := nofun
  obtain ⟨hold,hrows⟩ := completeAll_pending hstate hf
  exact absurd rfl (hrows (k,j) (Dict.get?_eq_some.mp (h.pending j k hold)))

theorem ambientStep (hs : AmbientStep env w e t) : SlotInv t := by
  cases hs with
  | closeAll => exact h.closeAll_slots _
  | _ => exact h.frame rfl rfl rfl

theorem call_slots (hnew : w.calls.get? i = none) (c : Call) :
    SlotInv {w with calls := w.calls.set i ⟨c,.arriving⟩} := by
  have hget : ∀ j, (w.calls.set i ⟨c,.arriving⟩).get? j =
      if j = i then some ⟨c,.arriving⟩ else w.calls.get? j := fun j => Dict.get?_set _ _ _ _
  refine ⟨?_,?_,h.pending⟩
  · intro j q hq
    rw [hget] at hq
    split_ifs at hq
    · cases hq
      trivial
    · exact h.bare j q hq
  · intro k j hk
    obtain ⟨hf,q,hq,hs⟩ := h.held k j hk
    refine ⟨hf,q,?_,hs⟩
    rw [hget,if_neg]
    · exact hq
    · rintro rfl
      rw [hnew] at hq
      cases hq

omit h

end SlotInv

variable {env : Env} {t : World}

theorem step_slots {w : World} {e : Event} (h : SlotInv w) (hw : Coherent w)
    (hsafe : SlotSafe w e) (ht : step env w e = some t) : SlotInv t := by
  rcases step_moves ht with ⟨i,c,-,hnew,rfl⟩ | ⟨i,run,q,hrun,hstep⟩ | hstep
  · exact h.call_slots hnew c
  · exact h.callStep hw hrun hsafe hstep
  · exact h.ambientStep hstep

theorem run_slots {as : List Event} (h : Run (restrict (Steps (step env)) SlotSafe) empty as t) :
    SlotInv t := by
  have hboth : Coherent t ∧ SlotInv t := by
    refine h.invariant (I := fun w => Coherent w ∧ SlotInv w) ?_ ⟨coherent_empty,
      fun _ _ => Dict.not_mem_empty,fun _ _ => Dict.not_mem_empty,fun _ _ => Dict.not_mem_empty⟩
    rintro w e u ⟨hw,hinv⟩ ⟨hsafe,hstep⟩
    exact ⟨step_coherent hw hstep,step_slots hinv hw hsafe hstep⟩
  exact hboth.2

theorem slot_of_done {p : Phase} (h : p.done = true) : p.slot = none := by
  cases p with
  | returned _ _ | forwarded _ | raised _ => rfl
  | _ => cases h

/-- In every run of calls whose steps meet the conditions, a call that has
returned or raised has no future in the map and none that is pending, and a
pending future belongs to a call that is still running. -/
theorem slots_closed (env : Env) (as : List Event) (t : World)
    (h : Run (restrict (Steps (step env)) SlotSafe) empty as t) :
    (∀ i run, t.calls.get? i = some run → run.phase.done = true →
      (∀ k, t.inflight.get? k ≠ some i) ∧ ∀ k, t.futures.get? i ≠ some ⟨k,.pending⟩) ∧
    (∀ f k, t.futures.get? f = some ⟨k,.pending⟩ → t.inflight.get? k = some f ∧
      ∃ run, t.calls.get? f = some run ∧ run.phase.done = false) := by
  have hinv := run_slots h
  have hopen : ∀ i run k, t.calls.get? i = some run → run.phase.done = true →
      t.inflight.get? k ≠ some i := by
    intro i run k hrun hdone hk
    obtain ⟨-,q,hq,hs⟩ := hinv.held k i hk
    rw [hrun] at hq
    cases hq
    rw [slot_of_done hdone] at hs
    cases hs
  constructor
  · intro i run hrun hdone
    exact ⟨fun k => hopen i run k hrun hdone,
      fun k hf => hopen i run k hrun hdone (hinv.pending i k hf)⟩
  · intro f k hf
    have hk := hinv.pending f k hf
    obtain ⟨-,q,hq,hs⟩ := hinv.held k f hk
    refine ⟨hk,q,hq,?_⟩
    cases hdone : q.phase.done with
    | false => rfl
    | true =>
      rw [slot_of_done hdone] at hs
      cases hs

/-- An instance `a` in a ring, and a call for a session-header key. -/
def ringEnv : Env := ⟨id,id,"a",none,true,0⟩

def headerCall (session : String) : Call where
  key := .make "session_header" session none
  apiKey := none
  keyScope := rfl
  incomingTurnState := none
  incomingSessionKey := none
  codexAffinity := false
  idleTtlSeconds := 60
  maxSessions := 4
  allowForwardToOwner := true

def ownedHere : OwnerProbe := ⟨false,0,some (some "a"),some ("a",["a","b"]),some none⟩

def ownedElsewhere : OwnerProbe :=
  ⟨false,0,some (some "b"),some ("a",["a","b"]),some (some "http://b")⟩

/-- A call from its start to the dispatch after the locked block. -/
def passEvents (i : ℕ) (c : Call) (probe : OwnerProbe) : List Event :=
  [.call i c,.register i true,.acquire i 0,.select i 0,.owner i probe]

def creationEvents : List Event :=
  passEvents 0 (headerCall "s") ownedHere ++
    [.evict 0,.proceed 0,.created 0 ⟨"acc",true⟩ 0,.claimed 0,.registered 0]

theorem created_session_closes_slot :
    ∃ t, Run (restrict (Steps (step ringEnv)) SlotSafe) empty creationEvents t ∧
      (t.calls.get? 0).map Running.phase = some (.returned 0 "acc") ∧
      (∀ k, t.inflight.get? k ≠ some 0) ∧ ∀ k, t.futures.get? 0 ≠ some ⟨k,.pending⟩ := by
  refine exists_run_with (fun t hrun hphase => ⟨hphase,?_⟩) (by decide)
  obtain ⟨run,hget,hp⟩ := Option.map_eq_some_iff.mp hphase
  exact (slots_closed ringEnv creationEvents t hrun).1 0 run hget (by rw [hp]; rfl)

/-- Call 0 inserts a future although the owner lookup has found another
instance, and is answered with the forward. Call 1, made when the session is
owned here, then waits on that future. -/
def leakEvents : List Event :=
  passEvents 0 (headerCall "s") ownedElsewhere ++ [.evict 0,.proceed 0] ++
    passEvents 1 (headerCall "s") ownedHere ++ [.proceed 1]

theorem forward_leaks_slot : ∃ t, Run (Steps (step ringEnv)) empty leakEvents t ∧
      (t.calls.get? 0).map (·.phase.done) = some true ∧
      t.inflight.get? (headerCall "s").key = some 0 ∧
      t.futures.get? 0 = some ⟨(headerCall "s").key,.pending⟩ ∧
      (t.calls.get? 1).any (fun run => run.phase matches .waitingInflight _ 0) = true :=
  exists_steps_of_exec (by decide +kernel)

end CodexLb.Bridge
