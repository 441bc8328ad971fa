import CodexLb.BridgeCoherence

/-!
# Every step keeps the bridge coherent

The transitions that make a future or a session object, the closes, the dispatch
behind the locked block and the exceptions have lemmas of their own; the others
are stages of the locked block or leave everything but the call alone.
-/
namespace CodexLb.Bridge
open Runs Registry

namespace Coherent
variable {env : Env} {w t : World} {i : ℕ} {run : Running} {l : Locals} {stage : CloseStage}

/-- The only step that makes a future; the key is vacant and nobody else is in
the locked block. -/
theorem insert_coherent (h : Coherent w) (hrun : w.calls.get? i = some run)
    (hp : run.phase = .evicting l) {todo : List ℕ} :
    Coherent ((w.insertSlot i l.key).leave i run w.registry
      (.closing {l with inflightFuture := some i,ownsCreation := true} todo stage)) := by
  have hknows := h.knows i run hrun
  rw [hp] at hknows
  obtain ⟨hl,-⟩ := hknows
  have hlocked : run.phase.locked = true := by rw [hp]; rfl
  have hnew : w.futureKey i = none := h.no_future hrun (by rw [hp]; rfl)
  have hfutures : ∀ f, World.futureKey ((w.insertSlot i l.key).leave i run w.registry
      (.closing {l with inflightFuture := some i,ownsCreation := true} todo stage)) f =
      if f = i then some l.key else w.futureKey f := by
    intro f
    simp only [World.futureKey,World.leave,World.insertSlot,Dict.get?_set]
    split_ifs <;> rfl
  have hkept : ∀ f k, w.futureKey f = some k → f ≠ i := by
    rintro f k hk rfl
    rw [hnew] at hk
    cases hk
  refine h.next hrun rfl ⟨fun _ _ hk => hk,fun _ _ hk => .inr hk,?_,?_⟩ h.registry ?_ ?_
    (.inr ⟨fun j => h.holds hrun hlocked,rfl⟩) ?_ ?_ (by rintro _ ⟨⟩) ?_ (fun _ => rfl)
  · intro f k hk
    rw [hfutures,if_neg (hkept f k hk)]
    exact hk
  · intro f k hk
    rw [hfutures] at hk
    split_ifs at hk with hf
    · exact .inl hf
    · exact .inr hk
  · intro k f hk
    rw [hfutures]
    simp only [World.leave,World.insertSlot,Dict.get?_set] at hk
    split_ifs at hk with heq
    · cases hk
      rw [if_pos rfl,heq]
    · rw [if_neg (hkept f k (h.slots k f hk))]
      exact h.slots k f hk
  · intro f k sid hf
    simp only [World.leave,World.insertSlot,Dict.get?_set] at hf
    split_ifs at hf
    · cases hf
    · exact h.results f k sid hf
  · refine ⟨hl.scope,hl.returns,?_,fun _ => ⟨rfl,hl.noError,hl.noWait⟩⟩
    intro f hf
    cases hf
    rw [hfutures,if_pos rfl]
  · intro j q k hq hj hk
    have hcounting : q.phase.locked = true := by
      cases hphase : q.phase <;> simp [hphase,Phase.counting,Phase.locked] at hk ⊢
    exact absurd (h.holds hrun hlocked (h.lock j q hq hcounting)) hj
  · exact fun hk => absurd (h.no_session hrun (by rw [hp]; rfl)) hk

/-- What a step of a close keeps of a call: what it knows, whether it has the lock, and
that it is past its creation and its insertion. -/
structure CloseFrame (keyOf futureKey : ℕ → Option SessionKey) (a : Option String) (i : ℕ)
    (p q : Phase) : Prop where
  knows : p.Knows keyOf futureKey a i → q.Knows keyOf futureKey a i
  counting : q.counting = none
  locked : q.locked = p.locked
  created : p.created = true → q.created = true
  inserted : p.inserted = true → q.inserted = true

variable {p q : Phase}

theorem closeStep_frame {sid : ℕ} (hclose : closeStep i p = some (sid,stage,q))
    (keyOf futureKey : ℕ → Option SessionKey) (a : Option String) :
    CloseFrame keyOf futureKey a i p q := by
  unfold closeStep at hclose
  split at hclose
  · cases hclose
    exact ⟨id,rfl,rfl,id,id⟩
  · cases hclose
    split <;> exact ⟨id,rfl,rfl,id,id⟩
  · cases hclose
    split
    · exact ⟨id,rfl,rfl,id,id⟩
    · exact ⟨id,rfl,rfl,nofun,nofun⟩
  · cases hclose
    split <;> exact ⟨fun _ => trivial,rfl,rfl,id,id⟩
  · cases hclose

section
variable (h : Coherent w) (hrun : w.calls.get? i = some run)
include h hrun

/-- A close only takes entries out, so it needs no assumption on the session. -/
theorem close_coherent {sid : ℕ} (hclose : closeStep i run.phase = some (sid,stage,q)) :
    Coherent (w.update i run (World.closeStage w.registry sid stage) q) := by
  have hframe := closeStep_frame hclose w.registry.keyOf w.futureKey run.call.apiKeyId
  refine h.move hrun rfl rfl rfl (sound_closeStage _ _ _) ?_ (hframe.knows (h.knows i run hrun))
    ?_ hframe.created hframe.inserted
  · cases hlocked : run.phase.locked with
    | false => exact .inl ⟨rfl,hframe.locked.trans hlocked⟩
    | true =>
      refine .inr ⟨fun j => h.holds hrun hlocked,?_⟩
      rw [if_pos (hframe.locked.trans hlocked)]
      exact h.lock i run hrun hlocked
  · intro k hk
    rw [hframe.counting] at hk
    cases hk

/-- Behind the locked block, the branches in the order in which the source asks for them. A
call that owns a creation has neither an error nor a wait, so it does create. -/
theorem dispatch_coherent {todo : List ℕ} (hp : run.phase = .closing l todo stage) :
    Coherent (w.rest i run (dispatch w.registry l)) := by
  have hl := h.knows i run hrun
  rw [hp] at hl
  have hcreated : ∀ {q : Phase}, run.phase.created = true → q.created = true := by
    intro q hc
    rw [hp] at hc
    cases hc
  have howner : run.phase.inserted = true → l.ownsCreation = true := by
    intro hi
    rw [hp] at hi
    exact hi
  cases hret : l.sessionToReturnAfterClose with
  | some sid =>
    simp only [dispatch,hret]
    exact h.rest hrun ⟨l.key,hl.returns sid hret,hl.scope⟩ rfl rfl hcreated (fun _ => rfl)
  | none => cases hforward : l.ownerForward with
    | some f =>
      simp only [dispatch,hret,hforward]
      exact h.rest hrun trivial rfl rfl hcreated (fun _ => rfl)
    | none => cases herror : l.continuityError with
      | some e =>
        simp only [dispatch,hret,hforward,herror]
        exact h.rest hrun trivial rfl rfl hcreated (fun _ => rfl)
      | none => cases hwait : l.capacityWaitFuture with
        | some f =>
          simp only [dispatch,hret,hforward,herror,hwait]
          refine h.rest hrun hl.scope rfl rfl hcreated ?_
          intro hi
          rw [(hl.owner (howner hi)).2.2] at hwait
          cases hwait
        | none => cases hfuture : l.inflightFuture with
          | some f =>
            simp only [dispatch,hret,hforward,herror,hwait,hfuture]
            split_ifs with howns
            · have hmine := (hl.owner howns).1
              refine h.rest hrun ⟨hl.scope,?_,fun _ => hl.future i hmine⟩ rfl rfl hcreated
                (fun _ => howns)
              rw [if_pos howns]
              exact hmine
            · exact h.rest hrun ⟨hl.scope,hl.future f hfuture⟩ rfl rfl hcreated
                (fun hi => absurd (howner hi) howns)
          | none =>
            simp only [dispatch,hret,hforward,herror,hwait,hfuture]
            have hnot : ¬l.ownsCreation = true := by
              intro howns
              rw [(hl.owner howns).1] at hfuture
              cases hfuture
            refine h.rest hrun ⟨hl.scope,?_,fun howns => absurd howns hnot⟩ rfl rfl hcreated howner
            rw [if_neg hnot]
            exact hfuture

/-- The only step that makes a session object. -/
theorem created_coherent (hp : run.phase = .creating l) (account : Account) (now : ℤ) :
    Coherent (w.update i run {w.registry with
      heap := w.registry.heap.set i (newSession run.call l.key account now)} (.claiming l)) := by
  have hknows := h.knows i run hrun
  rw [hp] at hknows
  have hnew : w.registry.keyOf i = none := h.no_session hrun (by rw [hp]; rfl)
  have hkeys : ∀ sid, Registry.keyOf {w.registry with
      heap := w.registry.heap.set i (newSession run.call l.key account now)} sid =
      if sid = i then some l.key else w.registry.keyOf sid := by
    intro sid
    simp only [Registry.keyOf,Dict.get?_set]
    split_ifs <;> rfl
  have hgrow : ∀ sid k, w.registry.keyOf sid = some k → Registry.keyOf {w.registry with
      heap := w.registry.heap.set i (newSession run.call l.key account now)} sid = some k := by
    intro sid k hk
    rw [hkeys,if_neg]
    · exact hk
    · rintro rfl
      rw [hnew] at hk
      cases hk
  refine h.next hrun rfl ⟨hgrow,?_,fun _ _ hk => hk,fun _ _ hk => .inr hk⟩ ?_ h.slots ?_
    (.inl ⟨rfl,rfl⟩) ⟨hknows,?_⟩ (fun j q k hq _ hk => h.vacant j q k hq hk) (by rintro _ ⟨⟩)
    (fun _ => rfl) (fun _ => rfl)
  · intro sid k hk
    change Registry.keyOf {w.registry with heap := _} sid = some k at hk
    rw [hkeys] at hk
    split_ifs at hk with hsid
    · exact .inl hsid
    · exact .inr hk
  · exact ⟨fun k sid hk => hgrow sid k (h.registry.keyed k sid hk),h.registry.turnStates,
      h.registry.previousResponses⟩
  · exact fun f k sid hf => hgrow sid k (h.results f k sid hf)
  · change Registry.keyOf {w.registry with heap := _} i = some l.key
    rw [hkeys,if_pos rfl]

/-- A failed creation completes its future with an outcome that names no session. -/
theorem unwind_coherent {exc : Raised}
    (hknows : q.Knows w.registry.keyOf w.futureKey run.call.apiKeyId i)
    (hcount : q.counting = none) (hlocked : q.locked = false) (hcreated : q.created = true)
    (hinserted : q.inserted = true) : Coherent ((w.completeSlot l exc.outcome).rest i run q) := by
  obtain ⟨hregistry,-,-⟩ := completeSlot_frame w l exc.outcome
  have hstate : ∀ sid, exc.outcome ≠ .result sid := by
    cases exc <;> nofun
  exact h.complete hrun (by rw [hregistry]) (hregistry ▸ h.registry)
    (fun sid hs => absurd hs (hstate sid)) hknows hcount hlocked (fun _ => hcreated) hinserted

end

theorem cancelTo_knows (hcancel : cancelTo p = some q) {keyOf futureKey : ℕ → Option SessionKey}
    {a : Option String} (hp : p.Knows keyOf futureKey a i) : q.Knows keyOf futureKey a i := by
  cases p with
  | creating l =>
    cases hcancel
    exact hp
  | claiming l | registering l =>
    cases hcancel
    exact hp.1
  | closing l todo stage =>
    cases todo <;> cases hcancel
    trivial
  | _ => cases hcancel <;> trivial

/-- A cancelled call has left the locked block; behind an insertion it first unwinds. -/
theorem cancelTo_frame (hcancel : cancelTo p = some q) :
    q.counting = none ∧ q.locked = false ∧ (p.created = true → q.created = true) ∧
      q.inserted = true := by
  cases p with
  | creating l =>
    cases hcancel
    exact ⟨rfl,rfl,nofun,rfl⟩
  | closing l todo stage =>
    cases todo <;> cases hcancel
    exact ⟨rfl,rfl,fun _ => rfl,rfl⟩
  | _ => cases hcancel <;> exact ⟨rfl,rfl,fun _ => rfl,rfl⟩

/-- An exception in the locked block releases the lock and leaves everything else alone. -/
theorem abort_coherent (h : Coherent w) (hrun : w.calls.get? i = some run)
    (hknows : q.Knows w.registry.keyOf w.futureKey run.call.apiKeyId i)
    (hcount : q.counting = none) (hlocked : q.locked = false)
    (hcreated : run.phase.created = true → q.created = true) (hinserted : q.inserted = true) :
    Coherent (w.abort i run q) := by
  refine h.move hrun rfl rfl rfl (.refl _) ?_ hknows ?_ hcreated (fun _ => hinserted)
  · by_cases hrest : run.phase.locked = true
    · refine .inr ⟨fun j => h.holds hrun hrest,?_⟩
      simp [World.abort,hrest,hlocked]
    · refine .inl ⟨?_,hlocked⟩
      simp [World.abort,hrest]
  · intro k hk
    rw [hcount] at hk
    cases hk

theorem cancel_coherent (h : Coherent w) (hrun : w.calls.get? i = some run)
    (hcancel : cancelTo run.phase = some q) : Coherent (w.abort i run q) := by
  obtain ⟨hcount,hlocked,hcreated,hinserted⟩ := cancelTo_frame hcancel
  exact h.abort_coherent hrun (cancelTo_knows hcancel (h.knows i run hrun)) hcount hlocked hcreated
    hinserted

variable {e : Event}

/-- The transitions of one call, each by its lemma or as a stage of the locked block. -/
theorem callStep (h : Coherent w) (hrun : w.calls.get? i = some run)
    (hs : CallStep env w i run e run.phase q t) : Coherent t := by
  obtain ⟨c,p⟩ := run
  have hknows := h.knows i _ hrun
  have hvacant := fun k => h.vacant i _ k hrun
  have halias : ∀ {key : SessionKey}, key.apiKeyId = c.apiKeyId → (resolveAlias env c key
      w.registry).Knows w.registry.keyOf w.futureKey c.apiKeyId w.registry :=
    resolveAlias_knows env h.registry
  cases hs with
  | ready => refine h.rest hrun c.keyScope rfl rfl ?_ ?_ <;> rintro ⟨⟩
  | again _ hagain =>
    have hres := halias hknows
    rw [hagain] at hres
    refine h.update hrun hres.1 hres.2 rfl rfl ?_ ?_ <;> rintro ⟨⟩
  | @acquired now key r l hfree hproceed =>
    have hres := halias hknows
    rw [hproceed] at hres
    have hscan := scanFrom_stage (i := i) now r.sessions.rows [] w.inflight hres.2.1 hres.2.2 hres.1
    refine h.move hrun rfl rfl rfl hres.1 (.inr ⟨fun j hj => ?_,rfl⟩) hscan.knows hscan.vacant
      (by rintro ⟨⟩) (by rintro ⟨⟩)
    rw [hfree] at hj
    cases hj
  | scan => exact h.leave hrun rfl (scanFrom_stage _ _ _ w.inflight hknows.1 hknows.2 (.refl _))
  | prune => exact h.leave hrun rfl ⟨sound_pruneKey _ _,hknows,by rintro _ ⟨⟩⟩
  | select =>
    exact h.leave hrun rfl (selectExisting_stage env _ h.registry w.inflight hknows.1 hknows.2)
  | reused => exact h.leave hrun rfl ⟨.refl _,hknows,by rintro _ ⟨⟩⟩
  | ownerFails => exact h.leave hrun rfl ⟨.refl _,trivial,by rintro _ ⟨⟩⟩
  | owner =>
    obtain ⟨hl,hret⟩ := hknows
    refine h.leave hrun rfl (findInflight_stage env _ h.registry h.slots ?_ hret)
    exact ⟨hl.scope,hl.returns,hl.future,hl.notOwner,hl.noError,hl.noWait⟩
  | @refreshed l sid =>
    obtain ⟨hl,hnone,hkey⟩ := hknows
    refine h.leave hrun rfl (continuityOrCapacity_stage (.refl _) ?_
      (hnone.trans (hvacant l.key rfl).symm))
    refine ⟨hl.scope,?_,hl.future,hl.notOwner,hl.noError,hl.noWait⟩
    rintro _ ⟨rfl⟩
    exact hkey
  | weighs | weigh => exact h.leave hrun rfl ⟨.refl _,hknows,hvacant⟩
  | inserts => exact h.insert_coherent hrun rfl
  | @evicts l =>
    obtain ⟨hl,hnone⟩ := hknows
    exact h.leave hrun rfl ⟨sound_pop _ _,
      ⟨⟨hl.scope,hl.returns,hl.future,hl.notOwner,hl.noError,hl.noWait⟩,hnone⟩,hvacant⟩
  | noRoomWaits hnone =>
    rcases hnone with ⟨-,rfl,-⟩ | ⟨-,_,_,rfl,-⟩
    all_goals exact h.leave hrun rfl ⟨.refl _,hknows.1.settled_with _ _,by rintro _ ⟨⟩⟩
  | noRoomFails hnone =>
    rcases hnone with ⟨-,rfl,-⟩ | ⟨-,_,_,rfl,-⟩
    all_goals exact h.leave hrun rfl ⟨.refl _,trivial,by rintro _ ⟨⟩⟩
  | close hclose => exact h.close_coherent hrun hclose
  | closeFails => exact h.abort_coherent hrun trivial rfl rfl (fun _ => rfl) rfl
  | proceed => exact h.dispatch_coherent hrun rfl
  | unready | capacityFails | joinFails =>
    exact h.rest hrun trivial rfl rfl (fun _ => rfl) fun _ => rfl
  | capacity => refine h.rest hrun hknows rfl rfl ?_ ?_ <;> rintro ⟨⟩
  | joinAgain | joinDrops => refine h.rest hrun hknows.1 rfl rfl ?_ ?_ <;> rintro ⟨⟩
  | @joins now l f sid s hfuture hsession =>
    obtain ⟨⟨k,state⟩,hf,rfl⟩ := Option.map_eq_some_iff.mp hfuture
    have hkey : k = l.key := by
      have hfutureKey := hknows.2
      rw [World.futureKey,hf] at hfutureKey
      exact Option.some.inj hfutureKey
    exact h.update hrun (sound_modify _ sid fun _ => ⟨rfl,rfl,rfl⟩)
      ⟨l.key,hkey ▸ h.results f k sid hf,hknows.1⟩ rfl rfl (fun _ => rfl) fun _ => rfl
  | drops =>
    exact h.update hrun ((sound_popIfSame _ _ _).trans (sound_unregisterTurnStates _ _)) hknows
      rfl rfl (by rintro ⟨⟩) (by rintro ⟨⟩)
  | dropCloses =>
    exact h.update hrun (((sound_popIfSame _ _ _).trans (sound_unregisterTurnStates _ _)).trans
      (sound_markClosed _ _)) hknows rfl rfl (by rintro ⟨⟩) (by rintro ⟨⟩)
  | created => exact h.created_coherent hrun rfl _ _
  | claimed => exact h.rest hrun hknows rfl rfl (fun _ => rfl) fun _ => rfl
  | registered =>
    refine h.complete hrun rfl (h.registry.put hknows.2) ?_ ⟨_,hknows.2,hknows.1.scope⟩ rfl rfl
      (fun _ => rfl) rfl
    rintro _ ⟨rfl⟩
    exact hknows.2
  | registeredLate =>
    refine h.complete hrun rfl h.registry ?_ ⟨_,hknows.2,hknows.1.scope⟩ rfl rfl (fun _ => rfl) rfl
    rintro _ ⟨rfl⟩
    exact hknows.2
  | createFails => exact h.rest hrun hknows rfl rfl (by rintro ⟨⟩) fun _ => rfl
  | claimFails => exact h.rest hrun hknows.1 rfl rfl (fun _ => rfl) fun _ => rfl
  | unwinds | unwindCloses => exact h.unwind_coherent hrun trivial rfl rfl rfl rfl
  | cancel hcancel => exact h.cancel_coherent hrun hcancel

theorem ambientStep (h : Coherent w) (hs : AmbientStep env w e t) : Coherent t := by
  cases hs with
  | session =>
    exact h.ambient_registry (keyOf_modify _ _ fun _ => rfl) (h.registry.modify _ fun _ => rfl)
  | registerTurnState => exact h.ambient_sound (sound_registerTurnState _ _ _)
  | registerPreviousResponseId => exact h.ambient_sound (sound_registerPreviousResponseId _ _ _)
  | closeSession => exact h.ambient_sound (sound_closeStage _ _ _)
  | reset => exact h.ambient_sound (sound_popIfSame _ _ _)
  | closeAll =>
    refine h.ambient rfl rfl rfl (funext (completeAll_key _ _ _)) ?_ ?_
      fun f k sid hf => completeAll_result _ (by simp) hf
    · exact ⟨fun _ _ hk => Dict.not_mem_empty hk,h.registry.turnStates,
        fun _ _ hk => Dict.not_mem_empty hk⟩
    · exact fun _ _ hk => Dict.not_mem_empty hk

end Coherent

variable {env : Env} {t : World}

/-- One step from a coherent world leads to a coherent world; the results about runs
cite this and no transition. -/
theorem step_coherent {w : World} {e : Event} (h : Coherent w) (ht : step env w e = some t) :
    Coherent t := by
  rcases step_moves ht with ⟨i,c,-,hnew,rfl⟩ | ⟨i,run,q,hrun,hstep⟩ | hstep
  · exact h.call_coherent hnew c
  · exact h.callStep hrun hstep
  · exact h.ambientStep hstep

theorem coherent_empty : Coherent World.empty where
  registry := ⟨fun _ _ hk => Dict.not_mem_empty hk,fun _ _ hk => Dict.not_mem_empty hk,
    fun _ _ hk => Dict.not_mem_empty hk⟩
  slots _ _ hk := Dict.not_mem_empty hk
  results _ _ _ hf := Dict.not_mem_empty hf
  lock _ _ hq := Dict.not_mem_empty hq
  knows _ _ hq := Dict.not_mem_empty hq
  vacant _ _ _ hq := Dict.not_mem_empty hq
  sessionFresh _ _ hk := by
    obtain ⟨_,hs,-⟩ := Option.map_eq_some_iff.mp hk
    exact Dict.not_mem_empty hs
  futureFresh _ _ hk := by
    obtain ⟨_,hf,-⟩ := Option.map_eq_some_iff.mp hk
    exact Dict.not_mem_empty hf

end CodexLb.Bridge
