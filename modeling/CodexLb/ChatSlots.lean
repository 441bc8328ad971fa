import CodexLb.ChatStream

/-!
# The slots of the tool calls

Both consumers merge the same deltas into their slots. The stream sends after
every delta what the slot holds and the client does not have yet; arguments that
do not extend what was sent are kept back. So the slot of a call is a fold over
the deltas of the call, and the collector's slot is the same without the
bookkeeping of what was sent.
-/
namespace CodexLb.Chat
open Json ToolCallState

/-- The arguments a client has after a slot sent its own. -/
def relayedAfter (relayed current : String) : String :=
  if Text.startsWith current relayed then current else relayed

theorem relayedAfter_idem {relayed current : String} :
    relayedAfter (relayedAfter relayed current) current = relayedAfter relayed current := by
  unfold relayedAfter
  by_cases h : Text.startsWith current relayed = true
  · simp [h]
  · simp [h]

namespace ToolCallState

def relay (s : ToolCallState) : ToolCallState :=
  {s with
    emittedCallId := s.callId
    emittedName := s.name
    emittedArguments := relayedAfter s.emittedArguments s.arguments
    emittedToolType := some (orFunction s.toolType)}

/-- What a client knows of a slot. -/
def sent (s : ToolCallState) : FoldedCall :=
  ⟨s.emittedCallId,s.emittedToolType,s.emittedName,s.emittedArguments⟩

def unsent (s : ToolCallState) : ToolCallState :=
  {s with
    emittedCallId := none
    emittedName := none
    emittedArguments := ""
    emittedToolType := none}

/-- An id and a name that were sent are not lost. -/
structure Behind (s : ToolCallState) : Prop where
  callId : s.callId = none → s.emittedCallId = none
  name : s.name = none → s.emittedName = none

theorem relay_relay {s : ToolCallState} : s.relay.relay = s.relay := by
  unfold relay
  simp [relayedAfter_idem]

end ToolCallState

theorem orFunction_orFunction {t : String} : orFunction (orFunction t) = orFunction t := by
  unfold orFunction
  split_ifs with h hfunction
  · rfl
  · rfl
  · rfl

theorem pendingStreamValue_orElse {emitted current : Option String}
    (h : current = none → emitted = none) :
    (pendingStreamValue emitted current <|> emitted) = current ∧
      (if pendingStreamValue emitted current = none then emitted else current) = current := by
  unfold pendingStreamValue
  by_cases heq : current = emitted
  · simp [heq]
  · rw [if_neg heq]
    cases current with
    | none => simp [h rfl]
    | some c => simp

theorem relayedAfter_empty {emitted : String} : relayedAfter emitted "" = emitted := by
  unfold relayedAfter
  split_ifs with h
  · exact ((String.append_eq_empty_iff.mp (Text.append_dropFirst h)).1).symm
  · rfl

theorem pendingStreamArguments_relayed (emitted current : String) :
    emitted++(pendingStreamArguments emitted current).getD "" = relayedAfter emitted current ∧
      (if pendingStreamArguments emitted current = none then emitted else current) =
        relayedAfter emitted current := by
  unfold pendingStreamArguments
  by_cases hempty : current = ""
  · simp [hempty,relayedAfter_empty]
  by_cases hsame : current = emitted
  · simp [hsame,relayedAfter]
  by_cases hfirst : emitted = ""
  · have hstart : Text.startsWith current "" = true := by simpa using Text.startsWith_append "" current
    simp [hempty,hfirst,relayedAfter,hstart]
  by_cases hstart : Text.startsWith current emitted = true
  · simp [hempty,hsame,hfirst,relayedAfter,hstart,Text.append_dropFirst hstart]
  · simp [hempty,hsame,hfirst,relayedAfter,hstart]

theorem function_name (name arguments : Option String) :
    (buildToolCallFunction name arguments).bind (·.name) = name := by
  unfold buildToolCallFunction
  split_ifs with h
  · exact h.1.symm
  · rfl

theorem function_arguments (name arguments : Option String) :
    (buildToolCallFunction name arguments).bind (·.arguments) = arguments := by
  unfold buildToolCallFunction
  split_ifs with h
  · exact h.2.symm
  · rfl

variable {s : ToolCallState}

/-- A slot sends what it holds, and the client learns what was sent. -/
theorem buildStreamDelta_relay (h : s.Behind) : s.buildStreamDelta.2 = s.relay ∧
      ((s.buildStreamDelta.1 = none ∧ s.relay = s) ∨
        ∃ call, s.buildStreamDelta.1 = some call ∧ call.index = s.index ∧
          s.sent.add call = s.relay.sent) := by
  obtain ⟨hid,hidNew⟩ := pendingStreamValue_orElse h.callId
  obtain ⟨hname,hnameNew⟩ := pendingStreamValue_orElse h.name
  obtain ⟨hargs,hargsNew⟩ := pendingStreamArguments_relayed s.emittedArguments s.arguments
  unfold buildStreamDelta
  simp only [hidNew,hnameNew,hargsNew]
  split
  · rename_i hnone
    obtain ⟨h1,h2,h3,h4⟩ := hnone
    have hrelay : s.relay = s := by
      rw [if_pos h1] at hidNew
      rw [if_pos h2] at hnameNew
      rw [if_pos h3] at hargsNew
      unfold relay
      rw [← h4,← hargsNew]
      cases s
      simp only at hidNew hnameNew
      rw [hidNew,hnameNew]
    exact ⟨hrelay.symm,.inl ⟨rfl,hrelay⟩⟩
  · refine ⟨rfl,.inr ⟨_,rfl,rfl,?_⟩⟩
    simp only [FoldedCall.add,sent,relay,function_name,
      function_arguments,hid,hname,hargs,orFunction_orFunction]

theorem buildStreamDelta_fresh (h : s.emittedToolType = none) : s.buildStreamDelta.1 ≠ none := by
  unfold buildStreamDelta
  simp [h]

theorem orElse_eq_none {a b : Option String} : (a <|> b) = none ↔ a = none ∧ b = none := by
  cases a <;> simp

theorem behind_applyDelta (h : s.Behind) (d : ToolCallDelta) : (s.applyDelta d).Behind := by
  refine ⟨?_,?_⟩
  · exact fun hnone => h.callId (orElse_eq_none.mp hnone).2
  · exact fun hnone => h.name (orElse_eq_none.mp hnone).2

def slotDeltas (ds : List ToolCallDelta) (index : ℕ) : List ToolCallDelta :=
  ds.filter (·.index = index)

def slotFrom (index : ℕ) (es : List ToolCallDelta) : ToolCallState :=
  es.foldl (fun s d => (s.applyDelta d).relay) (start index)

def slot (ds : List ToolCallDelta) (index : ℕ) : ToolCallState :=
  slotFrom index (slotDeltas ds index)

variable {index : ℕ}

theorem slotFrom_snoc : slotFrom index (es++[d]) = ((slotFrom index es).applyDelta d).relay := by
  rw [slotFrom,List.foldl_append]
  rfl

theorem slot_snoc (ds : List ToolCallDelta) (d : ToolCallDelta) : slot (ds++[d]) =
      Function.update (slot ds) d.index ((slot ds d.index).applyDelta d).relay := by
  funext i
  by_cases hi : i = d.index
  · subst hi
    rw [Function.update_self,slot,slotDeltas,List.filter_append]
    simp only [List.filter_cons,decide_true,if_true,List.filter_nil]
    exact slotFrom_snoc
  · rw [Function.update_of_ne hi,slot,slotDeltas,List.filter_append]
    have hne : ¬d.index = i := fun h => hi h.symm
    simp [hne,slot,slotDeltas]

theorem slot_of_untouched {ds : List ToolCallDelta} (h : ∀ d ∈ ds, d.index ≠ index) :
    slot ds index = .start index := by
  have hnone : slotDeltas ds index = [] := by
    simp only [slotDeltas,List.filter_eq_nil_iff,decide_eq_true_eq]
    exact h
  rw [slot,hnone]
  rfl

theorem behind_slotFrom (index : ℕ) (es : List ToolCallDelta) : (slotFrom index es).Behind := by
  induction es using List.reverseRecOn with
  | nil => exact ⟨fun _ => rfl,fun _ => rfl⟩
  | append_singleton es d ih =>
    rw [slotFrom_snoc]
    exact ⟨id,id⟩

theorem index_slotFrom (index : ℕ) (es : List ToolCallDelta) : (slotFrom index es).index = index := by
  induction es using List.reverseRecOn with
  | nil => rfl
  | append_singleton es d ih =>
    rw [slotFrom_snoc]
    exact ih

variable {es : List ToolCallDelta}

theorem relay_slotFrom (index : ℕ) (h : es ≠ []) :
    (slotFrom index es).relay = slotFrom index es := by
  induction es using List.reverseRecOn with
  | nil => exact absurd rfl h
  | append_singleton es d _ => rw [slotFrom_snoc,relay_relay]

def accumulated (es : List ToolCallDelta) : String := es.foldl (fun a e => e.argumentsAfter a) ""

def ToolCallDelta.Names (d : ToolCallDelta) : Prop :=
  d.callId.filter (· ≠ "") ≠ none ∨ d.name.filter (· ≠ "") ≠ none

/-- A delta with the id, the name or some arguments of its call. -/
def ToolCallDelta.Tells (d : ToolCallDelta) : Prop :=
  d.Names ∨ ∃ a, d.arguments = some a ∧ a ≠ ""

/-- The arguments of the delta extend those that are there. -/
def ToolCallDelta.ExtendsFrom (d : ToolCallDelta) (old : String) : Prop :=
  d.argumentsMode = .replace → ∀ a ∈ d.arguments, Text.startsWith a old = true

/-- Every snapshot of the arguments of a call extends those accumulated for it. -/
def Extending (old : String) : List ToolCallDelta → Prop
  | [] => True
  | d::ds => d.ExtendsFrom old ∧ Extending (d.argumentsAfter old) ds

theorem accumulated_snoc (es : List ToolCallDelta) :
    accumulated (es++[d]) = d.argumentsAfter (accumulated es) := by
  rw [accumulated,List.foldl_append]
  rfl

variable {d : ToolCallDelta} {old : String}

theorem startsWith_argumentsAfter (h : d.ExtendsFrom old) :
    Text.startsWith (d.argumentsAfter old) old = true := by
  unfold ToolCallDelta.argumentsAfter
  split
  · simpa using Text.startsWith_append old ""
  · rename_i a ha hmode
    exact h hmode a ha
  · exact Text.startsWith_append old _

theorem argumentsAfter_ne_empty (h : d.ExtendsFrom old) :
    d.argumentsAfter old ≠ "" ↔ old ≠ "" ∨ ∃ a, d.arguments = some a ∧ a ≠ "" := by
  unfold ToolCallDelta.argumentsAfter
  split
  · rename_i hnone
    simp [hnone]
  · rename_i a ha hmode
    have happ := Text.append_dropFirst (h hmode a ha)
    constructor
    · exact fun hne => .inr ⟨a,ha,hne⟩
    · rintro (hold | ⟨b,hb,hne⟩) hempty
      · rw [hempty] at happ
        exact hold (String.append_eq_empty_iff.mp happ).1
      · rw [ha] at hb
        cases hb
        exact hne hempty
  · rename_i a ha _
    simp [ha,String.append_eq_empty_iff]
    tauto

theorem foldl_ne_empty (h : Extending old es) : es.foldl (fun a e => e.argumentsAfter a) old ≠ "" ↔
      old ≠ "" ∨ ∃ e ∈ es, ∃ a, e.arguments = some a ∧ a ≠ "" := by
  induction es generalizing old with
  | nil => simp
  | cons d es ih =>
    rw [List.foldl_cons,ih h.2,argumentsAfter_ne_empty h.1]
    simp only [List.mem_cons,or_and_right,exists_or,exists_eq_left,or_assoc]

/-- When the snapshots extend the arguments, a client has them all. -/
theorem foldl_emittedArguments (hs : s.emittedArguments = s.arguments)
    (h : Extending s.arguments es) :
    (es.foldl (fun s d => (s.applyDelta d).relay) s).emittedArguments =
      (es.foldl (fun s d => (s.applyDelta d).relay) s).arguments := by
  induction es generalizing s with
  | nil => exact hs
  | cons d es ih =>
    refine ih ?_ h.2
    have hstart := startsWith_argumentsAfter h.1
    change relayedAfter s.emittedArguments (d.argumentsAfter s.arguments) =
      d.argumentsAfter s.arguments
    rw [hs,relayedAfter,if_pos hstart]

section
variable (index : ℕ) (es)

theorem arguments_slotFrom : (slotFrom index es).arguments = accumulated es := by
  induction es using List.reverseRecOn with
  | nil => rfl
  | append_singleton es d ih =>
    rw [slotFrom_snoc,accumulated_snoc,← ih]
    rfl

theorem named_slotFrom :
    (slotFrom index es).callId ≠ none ∨ (slotFrom index es).name ≠ none ↔ ∃ e ∈ es, e.Names := by
  induction es using List.reverseRecOn with
  | nil => simp [slotFrom,start]
  | append_singleton es d ih =>
    rw [slotFrom_snoc]
    simp only [List.mem_append,List.mem_singleton,or_and_right,exists_or,exists_eq_left,← ih]
    simp only [relay,applyDelta,ToolCallDelta.Names,ne_eq,
      orElse_eq_none,not_and_or]
    tauto

end

/-- A call without its bookkeeping tells something. -/
def ToolCallState.Filled (s : ToolCallState) : Prop :=
  (s.callId ≠ none ∨ s.name ≠ none) ∨ s.arguments ≠ ""

/-- The slot is kept by the collector, and a client has all of it. -/
def ToolCallState.Delivered (s : ToolCallState) : Prop :=
  s.Filled ∧ s.emittedArguments = s.arguments

theorem delivered_slotFrom (index : ℕ) (h : Extending "" es) :
    (slotFrom index es).Delivered ↔ ∃ e ∈ es, e.Tells := by
  rw [ToolCallState.Delivered,ToolCallState.Filled,named_slotFrom,arguments_slotFrom,accumulated,
    foldl_ne_empty h,and_iff_left]
  · simp [ToolCallDelta.Tells,and_or_left,exists_or]
  · rw [← accumulated,← arguments_slotFrom es index]
    exact foldl_emittedArguments rfl h

end CodexLb.Chat
