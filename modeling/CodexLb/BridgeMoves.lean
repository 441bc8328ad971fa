import CodexLb.BridgeSteps

/-!
# What the transitions do to the registry

A step of a call makes at most one session object or puts at most one into the
map, and the map changes only inside the locked block or while nobody is in it.
-/
namespace CodexLb.Bridge
open Runs Registry

variable {env : Env} {w t : World} {i : ℕ} {run : Running} {e : Event} {p q : Phase}

/-- A step makes a session object, or puts one into the map, or does neither. -/
theorem CallStep.registry (h : CallStep env w i run e p q t) (hw : Coherent w)
    (hrun : w.calls.get? i = some run) (hp : run.phase = p) :
    Sound w.registry t.registry ∨
    (∃ l account now, p = .creating l ∧ q = .claiming l ∧ selectable run.call account = true ∧
      t.registry = {w.registry with
        heap := w.registry.heap.set i (newSession run.call l.key account now)}) ∨
    ∃ l, p = .registering l ∧ q = .returned i (w.accountId i) ∧ w.lock = none ∧
      w.inflight.get? l.key = l.inflightFuture ∧ t.registry = w.registry.put l.key i := by
  have hknows := hw.knows i run hrun
  rw [hp] at hknows
  have hsound : ∀ key : SessionKey, key.apiKeyId = run.call.apiKeyId →
      (resolveAlias env run.call key w.registry).Knows w.registry.keyOf w.futureKey
        run.call.apiKeyId w.registry :=
    fun _ hkey => resolveAlias_knows env hw.registry hkey
  cases h with
  | again hfree halias | acquired hfree halias =>
    have hres := hsound _ hknows
    rw [halias] at hres
    exact .inl hres.1
  | prune => exact .inl (sound_pruneKey _ _)
  | select =>
    exact .inl (selectExisting_stage (i := i) env _ hw.registry w.inflight hknows.1 hknows.2).sound
  | @owner l probe forward force hcheck =>
    obtain ⟨hl,hret⟩ := hknows
    have hnext : ({l with ownerForward := forward,forceDurableTakeover := force} : Locals).Tracked
        w.registry.keyOf w.futureKey run.call.apiKeyId :=
      ⟨hl.scope,hl.returns,hl.future,hl.notOwner,hl.noError,hl.noWait⟩
    exact .inl (findInflight_stage (i := i) env _ hw.registry hw.slots hnext hret).sound
  | evicts => exact .inl (sound_pop _ _)
  | close => exact .inl (sound_closeStage _ _ _)
  | joins => exact .inl (sound_modify _ _ fun _ => ⟨rfl,rfl,rfl⟩)
  | drops => exact .inl ((sound_popIfSame _ _ _).trans (sound_unregisterTurnStates _ _))
  | dropCloses =>
    exact .inl (((sound_popIfSame _ _ _).trans (sound_unregisterTurnStates _ _)).trans
      (sound_markClosed _ _))
  | created hselect => exact .inr (.inl ⟨_,_,_,rfl,rfl,hselect,rfl⟩)
  | registered hfree hslot => exact .inr (.inr ⟨_,rfl,rfl,hfree,hslot,rfl⟩)
  | unwinds | unwindCloses =>
    left
    rw [World.rest,(completeSlot_frame w _ _).1]
    exact .refl _
  | _ => exact .inl (.refl _)

theorem sessions_modify (r : Registry) (sid : ℕ) (f : Session → Session) :
    (r.modify sid f).sessions = r.sessions := by
  unfold Registry.modify
  split <;> rfl

theorem sessions_closeStage (r : Registry) (sid : ℕ) (stage : CloseStage) :
    (World.closeStage r sid stage).sessions = r.sessions := by
  cases stage with
  | turnStates =>
    simp only [World.closeStage,unregisterTurnStates]
    split <;> exact sessions_modify r sid _
  | previousResponseIds =>
    simp only [World.closeStage,unregisterPreviousResponseIds]
    split <;> rfl
  | teardown => rfl

/-- The map of sessions changes inside the locked block, or while nobody is in
it. -/
theorem CallStep.sessions (h : CallStep env w i run e p q t) :
    t.registry.sessions = w.registry.sessions ∨ w.lock = none ∨ p.locked = true := by
  cases h with
  | again hfree | acquired hfree | drops hfree | dropCloses hfree | registered hfree =>
    exact .inr (.inl hfree)
  | prune | select | owner | evicts => exact .inr (.inr rfl)
  | close => exact .inl (sessions_closeStage _ _ _)
  | joins => exact .inl (sessions_modify _ _ _)
  | unwinds | unwindCloses =>
    left
    rw [World.rest,(completeSlot_frame w _ _).1]
  | _ => exact .inl rfl

variable {j : ℕ} {other : Running}

/-- So the map does not change for another call inside the locked block. -/
theorem CallStep.sessions_other (h : CallStep env w i run e p q t) (hw : Coherent w)
    (hrun : w.calls.get? i = some run) (hp : run.phase = p) (hother : w.calls.get? j = some other)
    (hj : j ≠ i) (hlocked : other.phase.locked = true) :
    t.registry.sessions = w.registry.sessions := by
  have hlock := hw.lock j other hother hlocked
  rcases h.sessions with hsame | hfree | hmine
  · exact hsame
  · rw [hfree] at hlock
    cases hlock
  · exact absurd (hw.holds hrun (hp ▸ hmine) hlock) hj

/-- The other operations leave the sessions as they are, apart from the updates
of the session tasks and the shutdown. -/
theorem AmbientStep.registry (h : AmbientStep env w e t) :
    Sound w.registry t.registry ∨ e = .closeAll ∨ ∃ sid u, e = .session sid u := by
  cases h with
  | session => exact .inr (.inr ⟨_,_,rfl⟩)
  | closeAll => exact .inr (.inl rfl)
  | registerTurnState => exact .inl (sound_registerTurnState _ _ _)
  | registerPreviousResponseId => exact .inl (sound_registerPreviousResponseId _ _ _)
  | closeSession => exact .inl (sound_closeStage _ _ _)
  | reset => exact .inl (sound_popIfSame _ _ _)

theorem AmbientStep.sessions (h : AmbientStep env w e t) :
    t.registry.sessions.rows.Sublist w.registry.sessions.rows ∧
      (t.registry.sessions = w.registry.sessions ∨ w.lock = none) := by
  cases h with
  | @session sid u =>
    have hsame := sessions_modify w.registry sid (·.apply u)
    exact ⟨by simp only [hsame]; exact .refl _,.inl hsame⟩
  | closeAll hfree => exact ⟨List.nil_sublist _,.inr hfree⟩
  | registerTurnState hfree => exact ⟨(sound_registerTurnState _ _ _).sessions,.inr hfree⟩
  | registerPreviousResponseId hfree =>
    exact ⟨(sound_registerPreviousResponseId _ _ _).sessions,.inr hfree⟩
  | closeSession => exact ⟨(sound_closeStage _ _ _).sessions,.inl (sessions_closeStage _ _ _)⟩
  | reset hfree => exact ⟨(sound_popIfSame _ _ _).sessions,.inr hfree⟩

theorem AmbientStep.sessions_other (h : AmbientStep env w e t) (hw : Coherent w)
    (hother : w.calls.get? j = some other) (hlocked : other.phase.locked = true) :
    t.registry.sessions = w.registry.sessions := by
  rcases h.sessions.2 with hsame | hfree
  · exact hsame
  · rw [hw.lock j other hother hlocked] at hfree
    cases hfree

end CodexLb.Bridge
