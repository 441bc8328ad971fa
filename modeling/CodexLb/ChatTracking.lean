import CodexLb.ChatRouting

/-!
# Two consumers on the same lines

The slots of both consumers form a table over the deltas that went to each slot.
After every line the stream and the collector have the same table, up to what
was sent, and the client has folded the chunks to what the slots have sent.
-/
namespace CodexLb.Chat
open Json Folded

variable {α : Type} {n k : ℕ} {g : ℕ → α}

theorem modify_range {f : α → α} :
    ((List.range n).map g).modify k f = (List.range n).map (Function.update g k (f (g k))) := by
  apply List.ext_getElem?
  intro i
  rw [List.getElem?_modify,List.getElem?_map,List.getElem?_map]
  by_cases hi : i < n
  · rw [List.getElem?_range hi]
    by_cases hk : k = i
    · subst hk
      simp
    · simp [hk,Function.update_of_ne (Ne.symm hk)]
  · rw [List.getElem?_eq_none (by simpa using hi)]
    simp

theorem set_range {a : α} :
    ((List.range n).map g).set k a = (List.range n).map (Function.update g k a) := by
  rw [List.set_eq_modify,modify_range]

theorem range_grow {fresh : ℕ → α} (h : ∀ i, n ≤ i → g i = fresh i) :
    (List.range n).map g++(List.range' n (k+1-n)).map fresh =
      (List.range (max n (k+1))).map g := by
  have hfresh : (List.range' n (k+1-n)).map fresh = (List.range' n (k+1-n)).map g := by
    apply List.map_congr_left
    intro i hi
    exact (h i (List.mem_range'_1.mp hi).1).symm
  have hmax : max n (k+1) = n+(k+1-n) := by omega
  rw [hfresh,hmax,← List.map_append,List.range_eq_range',List.range_eq_range']
  simpa using congrArg (List.map g) (List.range'_append_1 (s := 0) (m := n) (n := k+1-n))

theorem merge_range {g : ℕ → ToolCallState} {d : ToolCallDelta} (h : ∀ i, n ≤ i → g i = .start i) :
    mergeToolCallDelta ((List.range n).map g) d = (List.range (max n (d.index+1))).map
      (Function.update g d.index ((g d.index).applyDelta d)) := by
  rw [mergeToolCallDelta,growToolCalls,List.length_map,List.length_range,range_grow h,modify_range]

theorem place_range {g : ℕ → FoldedCall} (call : ChunkToolCall) (hindex : call.index ≤ n)
    (h : ∀ i, n ≤ i → g i = ⟨none,none,none,""⟩) :
    placeToolCall ((List.range n).map fun i => some (g i)) call =
      (List.range (max n (call.index+1))).map fun i =>
        some (Function.update g call.index ((g call.index).add call) i) := by
  have htable : ((List.range n).map fun i => some (g i)) =
      (List.range n).map fun i => if i < n then some (g i) else none := by
    apply List.map_congr_left
    intro i hi
    rw [if_pos (List.mem_range.mp hi)]
  have hnone : List.replicate (call.index+1-n) none =
      (List.range' n (call.index+1-n)).map fun _ => (none : Option FoldedCall) := by
    rw [List.map_const',List.length_range']
  rw [placeToolCall,List.length_map,List.length_range,htable,hnone,
    range_grow (fun i hi => if_neg (Nat.not_lt.mpr hi)),modify_range]
  apply List.map_congr_left
  intro i hi
  by_cases hi' : i = call.index
  · subst hi'
    rw [Function.update_self,Function.update_self]
    split_ifs with hlt
    · rfl
    · rw [h _ (Nat.not_lt.mp hlt)]
      rfl
  · rw [Function.update_of_ne hi',Function.update_of_ne hi',if_pos]
    have hmax := List.mem_range.mp hi
    omega

def Folded.after (f : Folded) (emitted : List Emitted) : Folded := emitted.foldl add f

variable {f : Folded}

theorem after_append {a b : List Emitted} : f.after (a++b) = (f.after a).after b :=
  List.foldl_append

theorem after_toolCall {role : Option String} {call : ChunkToolCall} :
    f.after [.chunk ⟨role,none,none,[call]⟩ none] =
      {f with toolCalls := placeToolCall f.toolCalls call} := by
  simp [after,add]

theorem sendSlot_cases (st : ChunkState) {g : ℕ → ToolCallState} {m : ℕ}
    (hslots : st.toolCalls = (List.range m).map g) (hk : k < m) (hbehind : (g k).Behind)
    (hindex : (g k).index = k) :
    (st.sendSlot k = ([],st) ∧ (g k).relay = g k ∧ (g k).emittedToolType ≠ none) ∨
      ∃ call role, st.sendSlot k = ([.chunk ⟨role,none,none,[call]⟩ none],{st with
          toolCalls := (List.range m).map (Function.update g k (g k).relay)
          sawToolCall := true
          sentRole := true}) ∧
        call.index = k ∧ (g k).sent.add call = (g k).relay.sent := by
  obtain ⟨hstate,hcall⟩ := buildStreamDelta_relay hbehind
  have hget : st.toolCalls[k]? = some (g k) := by
    rw [hslots,List.getElem?_map,List.getElem?_range hk]
    rfl
  unfold ChunkState.sendSlot
  rw [hget]
  rcases hcall with ⟨hnone,hrelay⟩ | ⟨call,hsome,hcallIndex,hadd⟩
  · left
    have hpair : (g k).buildStreamDelta = (none,(g k).relay) := Prod.ext hnone hstate
    simp only [hpair]
    refine ⟨trivial,hrelay,?_⟩
    intro hfresh
    exact buildStreamDelta_fresh hfresh hnone
  · right
    have hpair : (g k).buildStreamDelta = (some call,(g k).relay) := Prod.ext hsome hstate
    simp only [hpair,hslots,set_range]
    exact ⟨call,st.role,rfl,hcallIndex.trans hindex,hadd⟩

/-- The stream, the collector and the client after the same lines. -/
structure Tracks (ds : List ToolCallDelta) (n : ℕ) (st : ChunkState) (c : CollectState)
    (f : Folded) : Prop where
  toolIndex : st.toolIndex = c.toolIndex
  below : c.toolIndex.Below n
  inside : ∀ d ∈ ds, d.index < n
  touched : ∀ i < n, slotDeltas ds i ≠ []
  streamed : st.toolCalls = (List.range n).map (slot ds)
  collected : c.toolCalls = (List.range n).map fun i => (slot ds i).unsent
  calls : f.toolCalls = (List.range n).map fun i => some (slot ds i).sent
  saw : st.sawToolCall = decide (0 < n)
  content : f.content = c.content
  refusal : f.refusal = c.refusal
  unfinished : f.finishReason = none
  complete : c.incompleteReason = none

namespace Tracks
variable {ds : List ToolCallDelta} {n : ℕ} {st : ChunkState} {c : CollectState} {f : Folded}

theorem start : Tracks [] 0 .start .start .start := by
  refine ⟨rfl,⟨?_,?_,le_refl 0⟩,nofun,nofun,rfl,rfl,rfl,rfl,rfl,rfl,rfl,rfl⟩
  · exact fun _ _ h => Dict.not_mem_empty h
  · exact fun _ _ h => Dict.not_mem_empty h

variable (h : Tracks ds n st c f)
include h

theorem fresh {i : ℕ} (hi : n ≤ i) : slot ds i = .start i := by
  apply slot_of_untouched
  intro d hd heq
  have hlt := h.inside d hd
  omega

theorem sendText (payload : Object) : Tracks ds n (st.sendText payload).2 (c.addText payload)
      (f.after (st.sendText payload).1) := by
  have hnot : isType payload ["response.refusal.delta"] = true →
      isType payload ["response.output_text.delta"] = false := by
    unfold isType
    cases payload.text? "type" with
    | none => simp
    | some t =>
      simp only [Option.any_some,List.mem_singleton,decide_eq_true_eq]
      rintro rfl
      decide
  unfold ChunkState.sendText CollectState.addText
  by_cases hrefusal : isType payload ["response.refusal.delta"] = true
  · simp only [hrefusal,hnot hrefusal,if_true,Bool.false_eq_true,if_false]
    refine ⟨h.toolIndex,h.below,h.inside,h.touched,h.streamed,h.collected,h.calls,h.saw,?_,?_,
      h.unfinished,h.complete⟩
    · simpa [after,add] using h.content
    · simp [after,add,h.refusal]
  · by_cases htext : isType payload ["response.output_text.delta"] = true
    · simp only [hrefusal,htext,if_true,Bool.false_eq_true,if_false]
      refine ⟨h.toolIndex,h.below,h.inside,h.touched,h.streamed,h.collected,h.calls,h.saw,?_,?_,
        h.unfinished,h.complete⟩
      · simp [after,add,h.content]
      · simpa [after,add] using h.refusal
    · simp only [hrefusal,htext,Bool.false_eq_true,if_false]
      exact h

theorem snoc_inside (d : ToolCallDelta) : ∀ e ∈ ds++[d], e.index < max n (d.index+1) := by
  intro e he
  rcases List.mem_append.mp he with hold | hnew
  · exact (h.inside e hold).trans_le (le_max_left _ _)
  · rw [List.mem_singleton.mp hnew]
    omega

variable {d : ToolCallDelta}

theorem snoc_touched (hd : d.index ≤ n) : ∀ i < max n (d.index+1), slotDeltas (ds++[d]) i ≠ [] := by
  intro i hi hnil
  rw [slotDeltas,List.filter_append,List.append_eq_nil_iff] at hnil
  by_cases heq : d.index = i
  · simp [heq] at hnil
  · exact h.touched i (by omega) hnil.1

theorem snoc_collected (d : ToolCallDelta) : mergeToolCallDelta c.toolCalls d =
      (List.range (max n (d.index+1))).map fun i => (slot (ds++[d]) i).unsent := by
  rw [h.collected,merge_range (fun i hi => by rw [h.fresh hi]; rfl),slot_snoc]
  apply List.map_congr_left
  intro i _
  by_cases hi : i = d.index
  · subst hi
    rw [Function.update_self,Function.update_self]
    rfl
  · rw [Function.update_of_ne hi,Function.update_of_ne hi]

omit h

structure Sent (ds : List ToolCallDelta) (n : ℕ) (t : ToolCallIndex) (f : Folded) (out : Sends) :
    Prop where
  slots : out.2.toolCalls = (List.range n).map (slot ds)
  calls : f.after out.1 = {f with toolCalls := (List.range n).map fun i => some (slot ds i).sent}
  toolIndex : out.2.toolIndex = t
  saw : out.2.sawToolCall = true

theorem snoc_sent (h : Tracks ds n st c f) (hd : d.index ≤ n) (t : ToolCallIndex) :
    Sent (ds++[d]) (max n (d.index+1)) t f (ChunkState.sendSlot {st with
      toolIndex := t
      toolCalls := mergeToolCallDelta st.toolCalls d} d.index) := by
  have hmerged : mergeToolCallDelta st.toolCalls d = (List.range (max n (d.index+1))).map
      (Function.update (slot ds) d.index ((slot ds d.index).applyDelta d)) := by
    rw [h.streamed,merge_range fun i hi => h.fresh hi]
  have hat : Function.update (slot ds) d.index ((slot ds d.index).applyDelta d) d.index =
      (slot ds d.index).applyDelta d := Function.update_self _ _ _
  have hcases := sendSlot_cases {st with
    toolIndex := t
    toolCalls := mergeToolCallDelta st.toolCalls d} hmerged (k := d.index) (by omega)
    (by rw [hat]; exact behind_applyDelta (behind_slotFrom _ _) d)
    (by rw [hat]; exact index_slotFrom _ _)
  rw [hat,Function.update_idem,← slot_snoc] at hcases
  rcases hcases with ⟨hsend,hrelay,hknown⟩ | ⟨call,role,hsend,hcall,hadd⟩
  · have hlt : d.index < n := by
      by_contra hge
      rw [h.fresh (Nat.not_lt.mp hge)] at hknown
      exact hknown rfl
    have hmax : max n (d.index+1) = n := by omega
    rw [hsend]
    refine ⟨?_,?_,rfl,?_⟩
    · rw [slot_snoc,hrelay]
      exact hmerged
    · rw [hmax,slot_snoc,hrelay]
      have hsame : (fun i => some (Function.update (slot ds) d.index
          ((slot ds d.index).applyDelta d) i).sent) = fun i => some (slot ds i).sent := by
        funext i
        by_cases hi : i = d.index
        · rw [hi,hat]
          rfl
        · rw [Function.update_of_ne hi]
      rw [hsame,← h.calls]
      rfl
    · rw [h.saw]
      exact decide_eq_true (by omega)
  · rw [hsend]
    refine ⟨rfl,?_,rfl,rfl⟩
    have hplace : placeToolCall f.toolCalls call = (List.range (max n (d.index+1))).map fun i =>
        some (slot (ds++[d]) i).sent := by
      rw [h.calls,place_range (g := fun i => (slot ds i).sent) call (hcall.trans_le hd)
        (fun i hi => by rw [h.fresh hi]; rfl),hcall]
      apply List.map_congr_left
      intro i _
      by_cases hi : i = d.index
      · rw [hi,Function.update_self,slot_snoc,Function.update_self,← hadd]
        rfl
      · rw [Function.update_of_ne hi,slot_snoc,Function.update_of_ne hi]
    rw [after_toolCall,hplace]

theorem sendToolCall (h : Tracks ds n st c f) (payload : Object) :
    Tracks (ds++(toolCallDeltaFromPayload payload c.toolIndex).1.toList)
      (slotCount n (toolCallDeltaFromPayload payload c.toolIndex).1)
      (st.sendToolCall payload).2 (c.addToolCall payload)
      (f.after (st.sendToolCall payload).1) := by
  obtain ⟨hle,hbelow⟩ := delta_routed h.below payload
  unfold ChunkState.sendToolCall CollectState.addToolCall
  rw [h.toolIndex]
  cases hdelta : toolCallDeltaFromPayload payload c.toolIndex with
  | mk delta t =>
    rw [hdelta] at hle hbelow
    cases delta with
    | none =>
      simp only [Option.toList_none,List.append_nil]
      exact ⟨rfl,hbelow,h.inside,h.touched,h.streamed,h.collected,h.calls,h.saw,h.content,
        h.refusal,h.unfinished,h.complete⟩
    | some d =>
      have hd := hle d rfl
      have hsent := h.snoc_sent hd t
      refine ⟨hsent.toolIndex,hbelow,h.snoc_inside d,h.snoc_touched hd,hsent.slots,
        h.snoc_collected d,?_,?_,?_,?_,?_,h.complete⟩
      · rw [hsent.calls]
        rfl
      · rw [hsent.saw]
        exact (decide_eq_true (by simp [slotCount])).symm
      · rw [hsent.calls]
        exact h.content
      · rw [hsent.calls]
        exact h.refusal
      · rw [hsent.calls]
        exact h.unfinished

theorem payload (h : Tracks ds n st c f) (payload : Object) :
    Tracks (ds++(toolCallDeltaFromPayload payload c.toolIndex).1.toList)
      (slotCount n (toolCallDeltaFromPayload payload c.toolIndex).1)
      ((st.sendText payload).andThen (·.sendToolCall payload)).2
      ((c.addText payload).addToolCall payload)
      (f.after ((st.sendText payload).andThen (·.sendToolCall payload)).1) := by
  have hindex : (c.addText payload).toolIndex = c.toolIndex := by
    unfold CollectState.addText
    split_ifs <;> rfl
  have htext := (h.sendText payload).sendToolCall payload
  rw [hindex] at htext
  simp only [Sends.andThen,after_append]
  exact htext

end Tracks

variable {st : ChunkState}

theorem sendSlot_done : (st.sendSlot k).1.any Emitted.isDone = false := by
  unfold ChunkState.sendSlot
  split
  · rfl
  · split
    · rfl
    · rfl

theorem payload_done {payload : Object} :
    ((st.sendText payload).andThen (·.sendToolCall payload)).1.any Emitted.isDone = false := by
  have htext : (st.sendText payload).1.any Emitted.isDone = false := by
    unfold ChunkState.sendText
    split_ifs <;> rfl
  have htool : ∀ st : ChunkState, (st.sendToolCall payload).1.any Emitted.isDone = false := by
    intro st
    unfold ChunkState.sendToolCall
    split
    · rfl
    · exact sendSlot_done
  simp only [Sends.andThen,List.any_append,htext,htool,Bool.or_false]

/-- The line ends neither consumer. -/
def Quiet (line : Option Object) : Prop :=
  ∀ payload, linePayload line = some payload → isFinal payload = false ∧ isFailure payload = false

structure Reads (includeUsage : Bool) (lines : List (Option Object)) (st : ChunkState)
    (c : CollectState) (sent : List Emitted) (st' : ChunkState) (c' : CollectState) : Prop where
  stream : ∀ rest, streamFrom includeUsage st (lines++rest) =
    sent++streamFrom includeUsage st' rest
  collect : ∀ rest, collectFrom c (lines++rest) = collectFrom c' rest
  routed : ∀ rest, routed c.toolIndex (lines++rest) =
    routed c.toolIndex lines++routed c'.toolIndex rest

theorem Tracks.lines {lines : List (Option Object)} (hquiet : ∀ line ∈ lines, Quiet line)
    (includeUsage : Bool) {ds : List ToolCallDelta} {c : CollectState} (h : Tracks ds n st c f) :
    ∃ n' st' c' sent, Tracks (ds++routed c.toolIndex lines) n' st' c' (f.after sent) ∧
      Reads includeUsage lines st c sent st' c' := by
  induction lines generalizing ds n st c f with
  | nil => exact ⟨n,st,c,[],by simpa [routed,after] using h,fun _ => rfl,fun _ => rfl,fun _ => rfl⟩
  | cons line lines ih =>
    have hrest : ∀ line ∈ lines, Quiet line := fun l hl => hquiet l (List.mem_cons_of_mem _ hl)
    cases hline : linePayload line with
    | none =>
      obtain ⟨n',st',c',sent,htracks,hreads⟩ := ih hrest h
      refine ⟨n',st',c',sent,?_,?_,?_,?_⟩
      · simpa only [routed,hline] using htracks
      · intro rest
        simpa only [List.cons_append,streamFrom,hline] using hreads.stream rest
      · intro rest
        simpa only [List.cons_append,collectFrom,hline] using hreads.collect rest
      · intro rest
        simpa only [List.cons_append,routed,hline] using hreads.routed rest
    | some payload =>
      obtain ⟨hfinal,hfailure⟩ := hquiet line List.mem_cons_self payload hline
      have hout : st.sendPayload includeUsage payload =
          (st.sendText payload).andThen (·.sendToolCall payload) := by
        simp [ChunkState.sendPayload,hfinal,hfailure,Sends.andThen]
      have hindex : ((c.addText payload).addToolCall payload).toolIndex =
          (toolCallDeltaFromPayload payload c.toolIndex).2 := by
        have hsame : (c.addText payload).toolIndex = c.toolIndex := by
          unfold CollectState.addText
          split_ifs <;> rfl
        unfold CollectState.addToolCall
        rw [hsame]
        split <;> rename_i heq <;> rw [heq]
      obtain ⟨n',st',c',sent,htracks,hreads⟩ := ih hrest (h.payload payload)
      rw [hindex] at htracks
      refine ⟨n',st',c',((st.sendText payload).andThen (·.sendToolCall payload)).1++sent,
        ?_,?_,?_,?_⟩
      · rw [after_append]
        simpa only [routed,hline,List.append_assoc] using htracks
      · intro rest
        simp only [List.cons_append,streamFrom,hline,hout,payload_done,Bool.false_eq_true,
          if_false,List.append_assoc]
        rw [hreads.stream rest]
      · intro rest
        simp only [List.cons_append,collectFrom,hline,hfailure,hfinal,Bool.false_eq_true,if_false]
        exact hreads.collect rest
      · intro rest
        have hrouted := hreads.routed rest
        rw [hindex] at hrouted
        simp only [List.cons_append,routed,hline,List.append_assoc,hrouted]

end CodexLb.Chat
