import CodexLb.BridgeSteps

/-!
# Session-creation slots

A call that finds nothing to reuse puts a future into the in-flight map and
completes it when the session is created or has failed. The slot is held from
the insertion until then; other calls for the key, and calls waiting for
capacity, wait on the future. The invariant ties every entry of the map and
every pending future to a running call that holds the slot.

It holds as long as three things do not happen, and each of them leaks a slot:
a call that already has an answer inserts a future, a close fails or is
cancelled while the slot is held, and the handler of a failed creation is
cancelled before it has the lock.
-/
namespace CodexLb.Bridge
open Runs Registry

def Locals.slot (l : Locals) : Option SessionKey := if l.ownsCreation then some l.key else none

def Phase.slot : Phase → Option SessionKey
  | .closing l _ _ | .creating l | .claiming l | .registering l | .failing l _ _ => l.slot
  | _ => none

/-- The awaits after the insertion whose exceptions nothing catches. -/
def Phase.uncaught : Phase → Bool
  | .closing _ _ _ | .failing _ _ _ => true
  | _ => false

/-- The steps that keep the slots. -/
def SlotSafe (w : World) : Event → Prop
  | .evict i =>
    match w.calls.get? i with
    | some ⟨c,.evicting l⟩ => w.full c = false →
        l.ownerForward = none ∧ l.sessionToReturnAfterClose = none
    | _ => True
  | .cancel i | .closeFailed i =>
    match w.calls.get? i with
    | some run => run.phase.uncaught = true → run.phase.slot = none
    | none => True
  | _ => True

instance (w : World) (e : Event) : Decidable (SlotSafe w e) := by
  unfold SlotSafe
  split
  · split <;> infer_instance
  · split <;> infer_instance
  · split <;> infer_instance
  · infer_instance

/-- A call that holds a slot has no other answer. -/
def Phase.Bare : Phase → Prop
  | .closing l _ _ =>
    l.ownsCreation = true → l.ownerForward = none ∧ l.sessionToReturnAfterClose = none
  | _ => True

/-- Every entry of the map is the pending future of a call that holds the slot,
and every pending future is in the map. -/
structure SlotInv (w : World) : Prop where
  bare : ∀ (i : ℕ) (run : Running), w.calls.get? i = some run → run.phase.Bare
  held : ∀ (k : SessionKey) (i : ℕ), w.inflight.get? k = some i →
    w.futures.get? i = some ⟨k,.pending⟩ ∧
      ∃ run, w.calls.get? i = some run ∧ run.phase.slot = some k
  pending : ∀ (i : ℕ) (k : SessionKey), w.futures.get? i = some ⟨k,.pending⟩ →
    w.inflight.get? k = some i

variable {k : SessionKey}

theorem slot_eq_some {l : Locals} (h : l.slot = some k) : l.ownsCreation = true ∧ l.key = k := by
  unfold Locals.slot at h
  split_ifs at h with howns
  exact ⟨howns,Option.some.inj h⟩

variable {p : Phase}

theorem Phase.Knows.slot {keyOf futureKey : ℕ → Option SessionKey} {a : Option String} {i : ℕ}
    (h : p.Knows keyOf futureKey a i) (hk : p.slot = some k) : futureKey i = some k := by
  cases p with
  | closing l todo stage =>
    obtain ⟨howns,rfl⟩ := slot_eq_some hk
    exact h.future i (h.owner howns).1
  | creating l | failing l exc created =>
    obtain ⟨howns,rfl⟩ := slot_eq_some hk
    exact h.owned howns
  | claiming l | registering l =>
    obtain ⟨howns,rfl⟩ := slot_eq_some hk
    exact h.1.owned howns
  | _ => cases hk

theorem bare_of_slot (h : p.slot = none) : p.Bare := by
  cases p with
  | closing l todo stage =>
    intro howns
    simp [Phase.slot,Locals.slot,howns] at h
  | _ => trivial

/-- A step of call `i` that leaves the map and the futures alone. -/
def Moves (w t : World) (i : ℕ) (run : Running) (p : Phase) : Prop :=
  t.calls = w.calls.set i {run with phase := p} ∧ t.inflight = w.inflight ∧ t.futures = w.futures

namespace SlotInv
variable {env : Env} {w t : World} {i : ℕ} {run : Running} {p : Phase}

/-- A call moves on and keeps its slot, or holds none before and after. -/
theorem move (h : SlotInv w) (hrun : w.calls.get? i = some run) (hmoves : Moves w t i run p)
    (hbare : p.Bare) (hslot : p.slot = run.phase.slot) : SlotInv t := by
  obtain ⟨hcalls,hin,hfut⟩ := hmoves
  have hget : ∀ j, t.calls.get? j = if j = i then some {run with phase := p} else w.calls.get? j := by
    intro j
    rw [hcalls,Dict.get?_set]
  constructor
  · intro j q hq
    rw [hget] at hq
    split_ifs at hq
    · cases hq
      exact hbare
    · exact h.bare j q hq
  · intro k j hk
    rw [hin] at hk
    obtain ⟨hf,q,hq,hs⟩ := h.held k j hk
    refine ⟨hfut ▸ hf,?_⟩
    by_cases hj : j = i
    · subst hj
      rw [hrun] at hq
      cases hq
      exact ⟨_,by rw [hget,if_pos rfl],hslot.trans hs⟩
    · exact ⟨q,by rw [hget,if_neg hj,hq],hs⟩
  · intro j k hp
    rw [hfut] at hp
    rw [hin]
    exact h.pending j k hp

theorem not_inserted (h : p.inserted = false) : p.slot = none := by
  cases p with
  | closing l todo stage | creating l =>
    simp [Phase.slot,Locals.slot,show l.ownsCreation = false from h]
  | claiming l | registering l | failing l exc created => cases h
  | _ => rfl

/-- Before the insertion a call holds no slot, and a step that makes no future
gives it none. -/
theorem early (h : SlotInv w) (hw : Coherent w) (ht : Coherent t)
    (hrun : w.calls.get? i = some run) (hphase : run.phase.inserted = false)
    (hmoves : Moves w t i run p) : SlotInv t := by
  have hnone : t.futureKey i = none := by
    rw [World.futureKey,hmoves.2.2]
    exact hw.no_future hrun hphase
  have hself : t.calls.get? i = some {run with phase := p} := by
    rw [hmoves.1,Dict.get?_set,if_pos rfl]
  have hslot : p.slot = none := by
    cases hk : p.slot with
    | none => rfl
    | some k =>
      rw [(ht.knows i _ hself).slot hk] at hnone
      cases hnone
  exact h.move hrun hmoves (bare_of_slot hslot) (hslot.trans (not_inserted hphase).symm)

theorem insert_slots (h : SlotInv w) (hrun : w.calls.get? i = some run)
    (hslot : run.phase.slot = none) {l : Locals} (hfree : w.inflight.get? l.key = none)
    (hforward : l.ownerForward = none) (hreturn : l.sessionToReturnAfterClose = none)
    (r : Registry) (todo : List ℕ) (stage : CloseStage) :
    SlotInv ((w.insertSlot i l.key).leave i run r
      (.closing {l with inflightFuture := some i,ownsCreation := true} todo stage)) := by
  have hother : ∀ k, w.inflight.get? k ≠ some i := by
    intro k hk
    obtain ⟨-,q,hq,hs⟩ := h.held k i hk
    rw [hrun] at hq
    cases hq
    rw [hslot] at hs
    cases hs
  constructor
  · intro j q hq
    simp only [World.leave,World.insertSlot,Dict.get?_set] at hq
    split_ifs at hq
    · cases hq
      exact fun _ => ⟨hforward,hreturn⟩
    · exact h.bare j q hq
  · intro k j hk
    simp only [World.leave,World.insertSlot,Dict.get?_set] at hk ⊢
    split_ifs at hk with hkey
    · cases hk
      refine ⟨by rw [if_pos rfl,hkey],_,if_pos rfl,?_⟩
      rw [hkey]
      rfl
    · have hj : j ≠ i := by
        rintro rfl
        exact hother k hk
      rw [if_neg hj,if_neg hj]
      exact h.held k j hk
  · intro j k hf
    simp only [World.leave,World.insertSlot,Dict.get?_set] at hf ⊢
    split_ifs at hf with hj
    · cases hf
      rw [if_pos rfl,hj]
    · have hk := h.pending j k hf
      rw [if_neg]
      · exact hk
      · rintro rfl
        rw [hfree] at hk
        cases hk

end SlotInv

end CodexLb.Bridge
