import CodexLb.ChatTracking

/-!
# Streamed and collected chat completions

At the terminal event both consumers have the same slots. A slot that no event
ever filled was sent all the same, with its type only, while the collector drops
it. Arguments that do not extend what was sent were kept back, while the
collector takes the last ones. Nothing else tells the two apart, and with snapshots
that extend what was accumulated only the first can happen.
-/
namespace CodexLb.Chat
open Json ToolCallState

theorem pendingStreamValue_self {value : Option String} : pendingStreamValue value value = none := by
  simp [pendingStreamValue]

variable {s : ToolCallState}

theorem buildStreamDelta_relayed (h : s.relay = s) : s.buildStreamDelta = (none,s) := by
  have hid : s.callId = s.emittedCallId := congrArg emittedCallId h
  have hname : s.name = s.emittedName := congrArg emittedName h
  have hargs : relayedAfter s.emittedArguments s.arguments = s.emittedArguments :=
    congrArg emittedArguments h
  have htype : some (orFunction s.toolType) = s.emittedToolType :=
    congrArg emittedToolType h
  have hpending : pendingStreamArguments s.emittedArguments s.arguments = none := by
    by_contra hsome
    have hsame := (pendingStreamArguments_relayed s.emittedArguments s.arguments).2
    rw [if_neg hsome,hargs] at hsame
    exact hsome (by simp [pendingStreamArguments,hsame])
  unfold buildStreamDelta
  simp [hid,hname,hpending,htype,pendingStreamValue_self]

theorem sendSlots_relayed {st : ChunkState} (h : ∀ s ∈ st.toolCalls, s.relay = s) {is : List ℕ} :
    st.sendSlots is = ([],st) := by
  induction is with
  | nil => rfl
  | cons i is ih =>
    have hsend : st.sendSlot i = ([],st) := by
      unfold ChunkState.sendSlot
      cases hget : st.toolCalls[i]? with
      | none => rfl
      | some s => simp only [buildStreamDelta_relayed (h s (List.mem_of_getElem? hget))]
    simp only [ChunkState.sendSlots,hsend,Sends.andThen,ih,List.append_nil]

theorem toMessageToolCall_cases : (s.toMessageToolCall = none ∧ ¬s.Filled) ∨
      ∃ call, s.toMessageToolCall = some call ∧ s.Filled ∧
        call.folded = ⟨s.callId,some (orFunction s.toolType),s.name,s.arguments⟩ := by
  have hfunction : buildToolCallFunction s.name (if s.arguments = "" then none else some s.arguments) =
      none ↔ s.name = none ∧ s.arguments = "" := by
    unfold buildToolCallFunction
    simp
  unfold toMessageToolCall ToolCallState.Filled
  simp only [hfunction]
  by_cases h : s.callId = none ∧ s.name = none ∧ s.arguments = ""
  · left
    simp [h.1,h.2.1,h.2.2]
  · right
    rw [if_neg h]
    refine ⟨_,rfl,by tauto,?_⟩
    simp only [MessageToolCall.folded,function_name,function_arguments]
    split_ifs with hempty
    · rw [hempty]
      rfl
    · rfl

theorem compact_agree {slots : List ToolCallState} (h : ∀ s ∈ slots, s.relay = s) :
    slots.map sent = (compactToolCalls slots).map MessageToolCall.folded ↔
      ∀ s ∈ slots, s.Delivered := by
  induction slots with
  | nil => simp [compactToolCalls]
  | cons s slots ih =>
    have hs : s.relay = s := h s List.mem_cons_self
    have hrest := ih fun t ht => h t (List.mem_cons_of_mem _ ht)
    have hsent : s.sent = ⟨s.callId,some (orFunction s.toolType),s.name,s.emittedArguments⟩ := by
      conv_lhs => rw [← hs]
      simp only [sent,relay,FoldedCall.mk.injEq,true_and]
      exact congrArg emittedArguments hs
    rcases toMessageToolCall_cases with ⟨hnone,hempty⟩ | ⟨call,hcall,hfilled,hfolded⟩
    · have hshort : (compactToolCalls (s::slots)).length ≤ slots.length := by
        rw [compactToolCalls,List.filterMap_cons_none hnone]
        exact List.length_filterMap_le _ _
      constructor
      · intro heq
        have hlength := congrArg List.length heq
        simp only [List.length_map,List.length_cons] at hlength
        omega
      · intro hall
        exact absurd (hall s List.mem_cons_self).1 hempty
    · rw [compactToolCalls,List.filterMap_cons_some hcall,← compactToolCalls,List.map_cons,
        List.map_cons,List.cons_eq_cons,hrest,hsent,hfolded,List.forall_mem_cons]
      simp [hfilled,ToolCallState.Delivered]

theorem finishReason_ne_empty {response : Option Object} : finishReasonFromIncomplete response ≠ "" := by
  unfold finishReasonFromIncomplete
  split
  · split_ifs <;> decide
  · decide

variable {payload : Object}

theorem isFinal_not_isFailure (h : isFinal payload = true) : isFailure payload = false := by
  unfold isFinal isType at h
  unfold isFailure isType
  cases htype : payload.text? "type" with
  | none => rfl
  | some t =>
    rw [htype] at h
    simp only [Option.any_some,decide_eq_true_eq,List.mem_cons,List.not_mem_nil,or_false] at h
    rcases h with rfl | rfl
    · decide
    · decide

theorem linePayload_final (h : isFinal payload = true) :
    linePayload (some payload) = some payload := by
  have hrows : payload.rows ≠ [] := by
    intro hnil
    have hnone : payload = ⟨[]⟩ := by
      exact congrArg Object.mk hnil
    rw [hnone] at h
    exact absurd h (by decide)
  simp [linePayload,hrows]

section Final
variable {ds : List ToolCallDelta} {n : ℕ} {st : ChunkState} {c : CollectState} {f : Folded}

theorem Tracks.relayed (h : Tracks ds n st c f) : ∀ s ∈ st.toolCalls, s.relay = s := by
  intro s hs
  rw [h.streamed] at hs
  obtain ⟨i,hi,rfl⟩ := List.mem_map.mp hs
  exact relay_slotFrom i (h.touched i (List.mem_range.mp hi))

theorem Tracks.sendFinal (h : Tracks ds n st c f) (includeUsage : Bool) (payload : Object) :
    f.after (st.sendFinal includeUsage payload).1 =
        {f with finishReason := some (st.finishReason payload)} ∧
      (st.sendFinal includeUsage payload).1.any Emitted.isDone = true := by
  unfold ChunkState.sendFinal
  rw [sendSlots_relayed h.relayed]
  cases includeUsage <;> simp [Sends.andThen,Folded.after,Folded.add,Emitted.isDone]

theorem addFinal_keeps :
    (c.addFinal payload).content = c.content ∧ (c.addFinal payload).refusal = c.refusal ∧
      (c.addFinal payload).toolCalls = c.toolCalls := by
  unfold CollectState.addFinal
  split
  · exact ⟨rfl,rfl,rfl⟩
  · exact ⟨rfl,rfl,rfl⟩

theorem addFinal_reason (hnone : c.incompleteReason = none) (hsaw : st.sawToolCall = false) :
    ((c.addFinal payload).incompleteReason.filter (· ≠ "")).getD "stop" =
      st.finishReason payload := by
  unfold ChunkState.finishReason CollectState.addFinal
  rw [hsaw]
  cases payload.obj? "response" with
  | none =>
    simp only [hnone,Bool.false_eq_true,if_false]
    split_ifs <;> rfl
  | some response =>
    simp only [hnone,Bool.false_eq_true,if_false]
    split_ifs with hincomplete
    · simp [Option.filter,finishReason_ne_empty]
    · rfl

theorem finish_texts : c.finish.content.getD "" = c.content ∧ c.finish.refusal.getD "" = c.refusal ∧
      c.finish.toolCalls.getD [] = compactToolCalls c.toolCalls := by
  unfold CollectState.finish
  refine ⟨?_,?_,?_⟩
  · by_cases h : c.content = ""
    · simp only [h,and_true]
      split_ifs <;> rfl
    · simp [h]
  · by_cases h : c.refusal = ""
    · simp [h]
    · simp [h]
  · by_cases h : compactToolCalls c.toolCalls = []
    · simp [h]
    · simp [h]

theorem Tracks.calls_agree (h : Tracks ds n st c f) :
    f.calls = (compactToolCalls c.toolCalls).map MessageToolCall.folded ↔
      ∀ i < n, (slot ds i).Delivered := by
  have hcalls : f.calls = st.toolCalls.map sent := by
    rw [Folded.calls,h.calls,h.streamed,List.filterMap_map,List.map_map]
    exact congrFun List.filterMap_eq_map _
  have hcompact : compactToolCalls c.toolCalls = compactToolCalls st.toolCalls := by
    rw [h.collected,h.streamed,compactToolCalls,compactToolCalls,List.filterMap_map,
      List.filterMap_map]
    rfl
  rw [hcalls,hcompact,compact_agree h.relayed,h.streamed]
  simp only [List.mem_map,List.mem_range,forall_exists_index,and_imp,forall_apply_eq_imp_iff₂]

/-- After the terminal event the two agree on everything but the tool calls. -/
theorem Tracks.agree (h : Tracks ds n st c f) (payload : Object) :
    Agree {f with finishReason := some (st.finishReason payload)}
        (.completion (c.addFinal payload).finish) ↔
      ∀ i < n, (slot ds i).Delivered := by
  obtain ⟨hcontent,hrefusal,htools⟩ := addFinal_keeps
  obtain ⟨hcontentFinish,hrefusalFinish,htoolsFinish⟩ := finish_texts
  have hcalls := h.calls_agree
  constructor
  · rintro ⟨_,_,hsame,_⟩
    rw [htoolsFinish,htools] at hsame
    exact hcalls.mp hsame
  · intro hall
    have hsame := hcalls.mpr hall
    refine ⟨?_,?_,?_,?_⟩
    · rw [hcontentFinish,hcontent]
      exact h.content
    · rw [hrefusalFinish,hrefusal]
      exact h.refusal
    · rw [htoolsFinish,htools]
      exact hsame
    · have hlength := congrArg List.length hsame
      simp only [Folded.calls,h.calls,List.filterMap_map,List.length_map] at hlength
      simp only [CollectState.finish,htools,Option.some.injEq]
      by_cases hn : 0 < n
      · have hne : compactToolCalls c.toolCalls ≠ [] := by
          intro hnil
          rw [hnil] at hlength
          simp at hlength
          omega
        rw [if_pos hne,ChunkState.finishReason,h.saw,if_pos (decide_eq_true hn)]
      · have hnil : compactToolCalls c.toolCalls = [] := by
          rw [h.collected,Nat.eq_zero_of_not_pos hn]
          rfl
        have hsaw : st.sawToolCall = false := by
          rw [h.saw]
          exact decide_eq_false hn
        rw [if_neg (by simp [hnil]),addFinal_reason h.complete hsaw]

end Final

variable {lines : List (Option Object)} {last : Object} {includeUsage : Bool}

/-- A client that folds the chunks has the completion iff every slot is delivered. -/
theorem agree_iff_delivered (hlines : ∀ line ∈ lines, Quiet line) (hlast : isFinal last = true) :
    Agree (foldChunks (streamChatChunks includeUsage (lines++[some last])))
        (collectChatCompletion (lines++[some last])) ↔
      ∀ i, slotDeltas (toolCallDeltas (lines++[some last])) i ≠ [] →
        (slot (toolCallDeltas (lines++[some last])) i).Delivered := by
  obtain ⟨n,st,c,sent,htracks,hreads⟩ := Tracks.start.lines hlines includeUsage
  have hpayload := htracks.payload last
  have hline := linePayload_final hlast
  have hfailure := isFinal_not_isFailure hlast
  have hds : toolCallDeltas (lines++[some last]) = []++routed .empty lines++
      (toolCallDeltaFromPayload last c.toolIndex).1.toList := by
    have hrouted := hreads.routed [some last]
    simp only [routed,hline,List.append_nil] at hrouted
    exact hrouted
  obtain ⟨hfold,hdone⟩ := hpayload.sendFinal includeUsage last
  have hstream : foldChunks (streamChatChunks includeUsage (lines++[some last])) =
      {Folded.after (Folded.after .start sent)
          ((st.sendText last).andThen (·.sendToolCall last)).1 with
        finishReason := some (((st.sendText last).andThen (·.sendToolCall last)).2.finishReason
          last)} := by
    rw [← hfold,foldChunks,streamChatChunks,hreads.stream]
    simp only [streamFrom,hline,ChunkState.sendPayload,hfailure,hlast,Bool.false_eq_true,if_false,
      if_true]
    rw [Sends.andThen,List.any_append,hdone,Bool.or_true]
    simp only [if_true,Folded.after,List.foldl_append]
  have hcollect : collectChatCompletion (lines++[some last]) =
      .completion ((((c.addText last).addToolCall last).addFinal last).finish) := by
    rw [collectChatCompletion,hreads.collect]
    simp only [collectFrom,hline,hfailure,hlast,Bool.false_eq_true,if_false,if_true]
  rw [hstream,hcollect,hpayload.agree last,hds]
  constructor
  · intro hall i hne
    refine hall i ?_
    by_contra hge
    refine hne ?_
    simp only [slotDeltas,List.filter_eq_nil_iff,decide_eq_true_eq]
    intro d hd heq
    have hlt := hpayload.inside d hd
    omega
  · intro hall i hi
    exact hall i (hpayload.touched i hi)

/-- When every snapshot of the arguments of a call extends those accumulated for it,
a client that folds the chunks has the completion iff every tool call was told
something: an id, a name or arguments. -/
theorem agree_iff_told (includeUsage : Bool) {lines : List (Option Object)} {last : Object}
    (hlines : ∀ line ∈ lines, Quiet line) (hlast : isFinal last = true)
    (hext : ∀ i, Extending "" (slotDeltas (toolCallDeltas (lines++[some last])) i)) :
    Agree (foldChunks (streamChatChunks includeUsage (lines++[some last])))
        (collectChatCompletion (lines++[some last])) ↔
      ∀ i, slotDeltas (toolCallDeltas (lines++[some last])) i ≠ [] →
        ∃ e ∈ slotDeltas (toolCallDeltas (lines++[some last])) i, e.Tells := by
  rw [agree_iff_delivered hlines hlast]
  exact forall_congr' fun i => imp_congr_right fun _ => delivered_slotFrom i (hext i)

theorem quiet_some (h : isFinal payload = false ∧ isFailure payload = false) :
    Quiet (some payload) := by
  intro payload' hline
  rw [← Option.some.inj (Option.filter_eq_some_iff.mp hline).1]
  exact h

def callAdded : Object :=
  ⟨[("type",.str "response.output_item.added"),("output_index",.int 0),
    ("item",.obj [("type",.str "function_call"),("id",.str "fc_1"),("call_id",.str "call_1"),
      ("name",.str "lookup")])]⟩

def argumentsDelta (text : String) : Object :=
  ⟨[("type",.str "response.function_call_arguments.delta"),("item_id",.str "fc_1"),
    ("delta",.str text)]⟩

def completed : Object := ⟨[("type",.str "response.completed"),("response",.obj [])]⟩

def argumentsDone (text : String) : Object :=
  ⟨[("type",.str "response.function_call_arguments.done"),("item_id",.str "fc_1"),
    ("arguments",.str text)]⟩

/-- A call with its arguments in one fragment and a snapshot. -/
def lookupLines : List (Option Object) :=
  [some callAdded,some (argumentsDelta "[1"),some (argumentsDone "[1]")]

theorem agree_iff_told_lookup : toolCallDeltas (lookupLines++[some completed]) =
        [⟨0,some "call_1",some "lookup",none,some "function",.replace⟩,
          ⟨0,none,none,some "[1",none,.append⟩,⟨0,none,none,some "[1]",none,.replace⟩] ∧
      Agree (foldChunks (streamChatChunks true (lookupLines++[some completed])))
        (collectChatCompletion (lookupLines++[some completed])) := by
  have hdeltas : toolCallDeltas (lookupLines++[some completed]) =
      [⟨0,some "call_1",some "lookup",none,some "function",.replace⟩,
        ⟨0,none,none,some "[1",none,.append⟩,⟨0,none,none,some "[1]",none,.replace⟩] := by
    decide +kernel
  have hquiet : ∀ line ∈ lookupLines, Quiet line := by
    intro line hline
    simp only [lookupLines,List.mem_cons,List.not_mem_nil,or_false] at hline
    rcases hline with rfl | rfl | rfl
    all_goals exact quiet_some (by decide +kernel)
  refine ⟨hdeltas,(agree_iff_told true hquiet (by decide +kernel) fun i => ?_).mpr fun i hi => ?_⟩
  · rw [hdeltas]
    by_cases h : (0 : ℕ) = i
    · simp [slotDeltas,h,Extending,ToolCallDelta.ExtendsFrom,ToolCallDelta.argumentsAfter]
      decide
    · simp [slotDeltas,h,Extending]
  · rw [hdeltas] at hi ⊢
    by_cases h : (0 : ℕ) = i
    · subst h
      exact ⟨⟨0,some "call_1",some "lookup",none,some "function",.replace⟩,by simp [slotDeltas],
        .inl (.inl (by decide))⟩
    · simp [slotDeltas,h] at hi

/-- One empty fragment, for an item that was never announced: the stream sends a
tool call and finishes with it, the completion has none. -/
theorem emptyFragment_disagrees :
    (∀ line ∈ [some (argumentsDelta "")], Quiet line) ∧ isFinal completed = true ∧
      toolCallDeltas ([some (argumentsDelta "")]++[some completed]) =
        [⟨0,none,none,some "",none,.append⟩] ∧
      ¬Agree (foldChunks (streamChatChunks false ([some (argumentsDelta "")]++[some completed])))
        (collectChatCompletion ([some (argumentsDelta "")]++[some completed])) := by
  refine ⟨?_,by decide +kernel,by decide +kernel,by decide +kernel⟩
  intro line hline
  rw [List.mem_singleton.mp hline]
  exact quiet_some (by decide +kernel)

end CodexLb.Chat
