import CodexLb.BridgeStages
import CodexLb.BridgeCalls

/-!
# Completing futures

A future keeps its key for good and its state once it is no longer pending.
-/
namespace CodexLb.Bridge
open Registry World

/-- The key a future was made for. -/
def World.futureKey (w : World) (f : ℕ) : Option SessionKey := (w.futures.get? f).map Future.key

theorem complete_key {futures : Dict ℕ Future} {f : ℕ} {state : FutureState} {j : ℕ} :
    ((complete futures f state).get? j).map Future.key = (futures.get? j).map Future.key := by
  unfold complete
  split
  · rename_i key hf
    rw [Dict.get?_set]
    split_ifs with hj
    · subst hj
      rw [hf]
      rfl
    · rfl
  · rfl

variable {futures : Dict ℕ Future} {f j : ℕ} {state : FutureState}

theorem complete_cases {g : Future} (hg : (complete futures f state).get? j = some g) :
    futures.get? j = some g ∨ j = f ∧ futures.get? f = some ⟨g.key,.pending⟩ ∧ g.state = state := by
  unfold complete at hg
  split at hg
  · rename_i key hf
    rw [Dict.get?_set] at hg
    split_ifs at hg with hj
    · cases hg
      exact .inr ⟨hj,hf,rfl⟩
    · exact .inl hg
  · exact .inl hg

theorem completeSlot_futureKey (w : World) (l : Locals) (state : FutureState) :
    (w.completeSlot l state).futureKey = w.futureKey := by
  funext j
  unfold completeSlot futureKey
  split_ifs
  · cases l.inflightFuture with
    | some f => exact complete_key
    | none => rfl
  · rfl

theorem complete_other {futures : Dict ℕ Future} (hj : j ≠ f) {state : FutureState} :
    (complete futures f state).get? j = futures.get? j := by
  unfold complete
  split
  · rw [Dict.get?_set,if_neg hj]
  · rfl

variable {w : World} {l : Locals}

theorem completeSlot_other (hj : l.inflightFuture ≠ some j) (state : FutureState) :
    (w.completeSlot l state).futures.get? j = w.futures.get? j := by
  unfold completeSlot
  split_ifs
  · cases hfuture : l.inflightFuture with
    | none => rfl
    | some f =>
      have hne : j ≠ f := by
        rintro rfl
        exact hj hfuture
      exact complete_other hne
  · rfl

variable {k : SessionKey}

theorem completeSlot_inflight (hk : (w.completeSlot l state).inflight.get? k = some f) :
    w.inflight.get? k = some f := by
  unfold completeSlot at hk
  split_ifs at hk
  · simp only [Dict.get?_pop] at hk
    split_ifs at hk
    exact hk
  · exact hk

theorem completeSlot_vacant (hk : w.inflight.get? k = none) (l : Locals) (state : FutureState) :
    (w.completeSlot l state).inflight.get? k = none := by
  cases hf : (w.completeSlot l state).inflight.get? k with
  | none => rfl
  | some f =>
    rw [completeSlot_inflight hf] at hk
    cases hk

/-- A new result is the one the call completes its slot with, under its key. -/
theorem completeSlot_result (hslots : SlotsKeyed w.futureKey w.inflight) {sid : ℕ}
    (hf : (w.completeSlot l state).futures.get? f = some ⟨k,.result sid⟩) :
    w.futures.get? f = some ⟨k,.result sid⟩ ∨ k = l.key ∧ state = .result sid := by
  unfold completeSlot at hf
  split_ifs at hf with hslot
  · cases hfuture : l.inflightFuture with
    | none =>
      simp only [hfuture] at hf
      exact .inl hf
    | some g =>
      simp only [hfuture] at hf hslot
      rcases complete_cases hf with hold | ⟨-,hg,hstate⟩
      · exact .inl hold
      · have hkey := hslots l.key g hslot
        rw [futureKey,hg] at hkey
        exact .inr ⟨Option.some.inj hkey,hstate.symm⟩
  · exact .inl hf

theorem completeSlot_frame (w : World) (l : Locals) (state : FutureState) :
    (w.completeSlot l state).registry = w.registry ∧ (w.completeSlot l state).calls = w.calls ∧
      (w.completeSlot l state).lock = w.lock := by
  unfold completeSlot
  split_ifs <;> exact ⟨rfl,rfl,rfl⟩

theorem completeAll_key (rows : List (SessionKey × ℕ)) (state : FutureState)
    (futures : Dict ℕ Future) (j : ℕ) :
    ((rows.foldl (fun fs q => complete fs q.2 state) futures).get? j).map Future.key =
      (futures.get? j).map Future.key := by
  induction rows generalizing futures with
  | nil => rfl
  | cons q rows ih => rw [List.foldl_cons,ih,complete_key]

/-- No listed future stays pending. -/
theorem completeAll_pending {rows : List (SessionKey × ℕ)} (hstate : state ≠ .pending)
    (hf : (rows.foldl (fun fs q => complete fs q.2 state) futures).get? j = some ⟨k,.pending⟩) :
    futures.get? j = some ⟨k,.pending⟩ ∧ ∀ q ∈ rows, q.2 ≠ j := by
  induction rows generalizing futures with
  | nil => exact ⟨hf,nofun⟩
  | cons q rows ih =>
    obtain ⟨hnext,hrows⟩ := ih hf
    rcases complete_cases hnext with hold | ⟨-,-,hs⟩
    · refine ⟨hold,?_⟩
      intro a ha
      rcases List.mem_cons.mp ha with rfl | ha
      · rintro rfl
        simp only [complete,hold,Dict.get?_set,if_true,Option.some.injEq,Future.mk.injEq,
          true_and] at hnext
        exact hstate hnext
      · exact hrows a ha
    · exact absurd hs.symm hstate

theorem completeAll_result (rows : List (SessionKey × ℕ)) (hstate : ∀ sid, state ≠ .result sid)
    {sid : ℕ}
    (hf : (rows.foldl (fun fs q => complete fs q.2 state) futures).get? f = some ⟨k,.result
      sid⟩) : futures.get? f = some ⟨k,.result sid⟩ := by
  induction rows generalizing futures with
  | nil => exact hf
  | cons q rows ih =>
    rcases complete_cases (ih hf) with hold | ⟨-,-,hs⟩
    · exact hold
    · exact absurd hs.symm (hstate sid)

theorem sound_closeStage (r : Registry) (sid : ℕ) (stage : CloseStage) :
    Sound r (closeStage r sid stage) := by
  cases stage with
  | turnStates => exact (sound_markClosed r sid).trans (sound_unregisterTurnStates _ sid)
  | previousResponseIds => exact sound_unregisterPreviousResponseIds r sid
  | teardown => exact .refl r

end CodexLb.Bridge
