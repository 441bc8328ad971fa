import CodexLb.ChatSlots

/-!
# Routing tool calls to their slots

The router knows the slot of a call by its id, its name, its item and its place
in the output. Every slot it knows is there, so that the delta of an event goes
to a slot that is there or to the next one.
-/
namespace CodexLb.Chat
open Json

/-- Every slot the router knows is there. -/
structure ToolCallIndex.Below (t : ToolCallIndex) (n : ℕ) : Prop where
  indexes : ∀ key i, t.indexes.get? key = some i → i < n
  outputs : ∀ o i, t.outputIndexMap.get? o = some i → i < n
  next : t.nextIndex ≤ n

namespace ToolCallIndex.Below
variable {t : ToolCallIndex} {n : ℕ}

theorem mono {m : ℕ} (h : t.Below n) (hle : n ≤ m) : t.Below m :=
  ⟨fun key i hi => (h.indexes key i hi).trans_le hle,fun o i hi => (h.outputs o i hi).trans_le hle,
    h.next.trans hle⟩

variable {index : ℕ}

theorem setIndex (h : t.Below n) (hindex : index < n) (key : String) :
    (t.setIndex key index).Below n := by
  unfold ToolCallIndex.setIndex
  split_ifs
  · exact h
  · refine ⟨?_,h.outputs,h.next⟩
    intro k i hi
    simp only [Dict.get?_set] at hi
    split_ifs at hi
    · cases hi
      exact hindex
    · exact h.indexes k i hi

theorem registerOutputIndex (h : t.Below n) (hindex : index < n) (o : ℤ) :
    (t.registerOutputIndex o index).Below n := by
  unfold ToolCallIndex.registerOutputIndex
  split_ifs
  · exact h
  · refine ⟨h.indexes,?_,h.next⟩
    intro k i hi
    simp only [Dict.get?_set] at hi
    split_ifs at hi
    · cases hi
      exact hindex
    · exact h.outputs k i hi

/-- The slot of a delta is there or the next one, and known from then on. -/
def Routes (n : ℕ) (r : ℕ × ToolCallIndex) : Prop := r.1 ≤ n ∧ r.2.Below (max n (r.1+1))

theorem known (h : t.Below n) (hindex : index < n) : Routes n (index,t) :=
  ⟨hindex.le,h.mono (le_max_left _ _)⟩

theorem indexForKey (h : t.Below n) (key : String) : Routes n (t.indexForKey key) := by
  unfold ToolCallIndex.indexForKey
  split
  · rename_i index hkey
    exact h.known (h.indexes key index hkey)
  · have hnext := h.next
    refine ⟨hnext,⟨?_,?_,?_⟩⟩
    · intro k i hi
      simp only [Dict.get?_set] at hi
      split_ifs at hi
      · cases hi
        omega
      · exact (h.indexes k i hi).trans_le (le_max_left _ _)
    · exact fun o i hi => (h.outputs o i hi).trans_le (le_max_left _ _)
    · exact le_max_right _ _

theorem indexForOutputIndex (h : t.Below n) (outputIndex : Option ℤ) (callId name : Option String) :
    Routes n (t.indexForOutputIndex outputIndex callId name) := by
  have hself : ∀ {index : ℕ}, index < max n (index+1) := fun {index} => by omega
  unfold ToolCallIndex.indexForOutputIndex
  cases hindex : outputIndex.bind t.outputIndexMap.get? with
  | some index =>
    obtain ⟨o,_,ho⟩ := Option.bind_eq_some_iff.mp hindex
    have hlt := h.outputs o index ho
    cases toolCallKey callId name with
    | some key => exact ⟨hlt.le,(h.setIndex hlt key).mono (le_max_left _ _)⟩
    | none => exact h.known hlt
  | none =>
    cases toolCallKey callId name with
    | some key =>
      obtain ⟨hle,hbelow⟩ := h.indexForKey key
      cases outputIndex with
      | some o => exact ⟨hle,hbelow.registerOutputIndex hself o⟩
      | none => exact ⟨hle,hbelow⟩
    | none =>
      cases outputIndex with
      | some o =>
        have hgrown : t.Below (max n (t.nextIndex+1)) := h.mono (le_max_left _ _)
        have hset := hgrown.registerOutputIndex hself o
        exact ⟨h.next,⟨hset.indexes,hset.outputs,le_max_right _ _⟩⟩
      | none => exact ⟨Nat.zero_le n,h.mono (le_max_left _ _)⟩

theorem registerItemId (h : t.Below n) (hindex : index < n) (item : Object) :
    (registerItemId item index t).Below n := by
  unfold Chat.registerItemId
  split
  · exact h
  · split_ifs
    · exact h
    · exact h.setIndex hindex _

theorem registerItemIdAlias (h : t.Below n) (hindex : index < n) (payload : Object) :
    (registerItemIdAlias payload index t).Below n := by
  unfold Chat.registerItemIdAlias
  split
  · exact h
  · exact h.registerItemId hindex _
  · exact (h.registerItemId hindex _).registerOutputIndex hindex _

end ToolCallIndex.Below

def slotCount (n : ℕ) (d : Option ToolCallDelta) : ℕ := d.elim n fun d => max n (d.index+1)

/-- The delta of an event goes to a slot that is there or to the next one, and
afterwards every slot the router knows is there. -/
theorem delta_routed {t : ToolCallIndex} {n : ℕ} (h : t.Below n) (payload : Object) :
    (∀ d, (toolCallDeltaFromPayload payload t).1 = some d → d.index ≤ n) ∧
      (toolCallDeltaFromPayload payload t).2.Below
        (slotCount n (toolCallDeltaFromPayload payload t).1) := by
  unfold toolCallDeltaFromPayload
  split
  · split
    · exact ⟨nofun,h⟩
    · rename_i f hf
      obtain ⟨hle,hbelow⟩ := h.indexForOutputIndex (payload.int? "output_index")
        (f.callId <|> firstStr [payload.get? "item_id",(payload.obj? "item").bind (·.get? "id")]) f.name
      refine ⟨?_,?_⟩
      · rintro d hd
        cases hd
        exact hle
      · exact hbelow.registerItemIdAlias (by omega) payload
  · exact ⟨nofun,h⟩

def routed : ToolCallIndex → List (Option Object) → List ToolCallDelta
  | _,[] => []
  | t,line::lines =>
    match linePayload line with
    | none => routed t lines
    | some payload =>
      let r := toolCallDeltaFromPayload payload t
      r.1.toList++routed r.2 lines

def toolCallDeltas (lines : List (Option Object)) : List ToolCallDelta := routed .empty lines

end CodexLb.Chat
