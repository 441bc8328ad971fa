import CodexLb.ChatAgreement

/-!
# How a streamed chat completion ends and who speaks in it

A client reads chunks until the one that says `[DONE]`, and takes the role of the
message from the first chunk with text or a tool call. A stream ends at the first
payload that is final or a failure with an error object; a failure without one is
passed over.
-/
namespace CodexLb.Chat
open Json ChunkState

def isTerminal (payload : Object) : Bool := isFinal payload || isFailure payload

/-- The loop sends `[DONE]` for this payload. -/
def closes (payload : Object) : Bool :=
  isFinal payload || isFailure payload && (failureError payload).isSome

def isTextDelta (payload : Object) : Bool :=
  isType payload ["response.refusal.delta","response.output_text.delta"]

/-- The payload is a delta of the text or of a tool call. -/
def speaks (payload : Object) : Bool :=
  isTextDelta payload || isToolCallEvent payload && (extractToolCallFields payload).isSome

/-- Up to the payload that closes the stream, the first one that speaks has
something to say. -/
def opensWell : List Object → Bool
  | [] => true
  | p::ps =>
    if speaks p then !isTextDelta p || (p.text? "delta").isSome
    else closes p || opensWell ps

def payloads (lines : List (Option Object)) : List Object := lines.filterMap linePayload

namespace Emitted

def role : Emitted → Option String
  | .chunk delta _ => delta.role
  | _ => none

def carries : Emitted → Bool
  | .chunk delta _ => delta.content.isSome || delta.refusal.isSome || !delta.toolCalls.isEmpty
  | _ => false

def finishes : Emitted → Bool
  | .chunk _ finishReason => finishReason.isSome
  | _ => false

end Emitted

/-- The role stands in the first chunk that carries something, and nowhere else. -/
def RoleFirst (emitted : List Emitted) : Prop :=
  ∀ before e after, emitted = before++e::after →
    (e.role = some "assistant" ↔ e.carries = true ∧ ∀ x ∈ before, x.carries = false)

structure ProperlyTerminated (lines : List (Option Object)) (emitted : List Emitted) : Prop where
  done_last : ∃ before, emitted = before++[.done] ∧ ∀ e ∈ before, e.isDone = false
  finish_le : emitted.countP Emitted.finishes ≤ 1
  finish_eq : ((payloads lines).find? isTerminal).any isFinal = true →
    emitted.countP Emitted.finishes = 1
  role_first : RoleFirst emitted

def sentFrom (includeUsage : Bool) : ChunkState → List Object → List Emitted
  | _,[] => []
  | st,p::ps =>
    let a := st.sendPayload includeUsage p
    if a.1.any Emitted.isDone then a.1 else a.1++sentFrom includeUsage a.2 ps

variable {includeUsage : Bool}

theorem streamFrom_eq {lines : List (Option Object)} :
    ∀ st, streamFrom includeUsage st lines = sentFrom includeUsage st (payloads lines) := by
  induction lines with
  | nil => intro st; rfl
  | cons line lines ih =>
    intro st
    cases hline : linePayload line with
    | none =>
      rw [streamFrom,hline,payloads,List.filterMap_cons_none hline]
      exact ih st
    | some p =>
      rw [streamFrom,hline,payloads,List.filterMap_cons_some hline,sentFrom]
      simp only [ih]
      rfl

variable {p : Object} {st : ChunkState}

/-- Neither the last chunk nor one with a finish reason. -/
def Ordinary (emitted : List Emitted) : Prop :=
  ∀ e ∈ emitted, e.isDone = false ∧ e.finishes = false

theorem Ordinary.append {a b : List Emitted} (ha : Ordinary a) (hb : Ordinary b) :
    Ordinary (a++b) := fun e he => (List.mem_append.1 he).elim (ha e) (hb e)

theorem Ordinary.countP {a : List Emitted} (ha : Ordinary a) : a.countP Emitted.finishes = 0 :=
  List.countP_eq_zero.2 fun e he => by rw [(ha e he).2]; exact Bool.false_ne_true

theorem Ordinary.any_isDone {a : List Emitted} (ha : Ordinary a) : a.any Emitted.isDone = false :=
  List.any_eq_false.2 fun e he => by rw [(ha e he).1]; exact Bool.false_ne_true

theorem ordinary_nil : Ordinary [] := fun _ he => absurd he List.not_mem_nil

variable {delta : ChunkDelta}

theorem ordinary_chunk : Ordinary [.chunk delta none] := by
  intro e he
  rw [List.mem_singleton.1 he]
  exact ⟨rfl,rfl⟩

theorem ordinary_sendText : Ordinary (st.sendText p).1 := by
  unfold sendText
  split
  · exact ordinary_chunk
  · split
    · exact ordinary_chunk
    · exact ordinary_nil

theorem ordinary_sendSlot {index : ℕ} : Ordinary (st.sendSlot index).1 := by
  unfold sendSlot
  split
  · exact ordinary_nil
  · split
    · exact ordinary_nil
    · exact ordinary_chunk

theorem ordinary_sendToolCall : Ordinary (st.sendToolCall p).1 := by
  unfold sendToolCall
  split
  · exact ordinary_nil
  · exact ordinary_sendSlot

theorem ordinary_sendSlots (is : List ℕ) : ∀ st : ChunkState, Ordinary (st.sendSlots is).1 := by
  induction is with
  | nil => intro st; exact ordinary_nil
  | cons i is ih => intro st; exact (ordinary_sendSlot).append (ih _)

def ChunkState.sendDeltas (st : ChunkState) (p : Object) : Sends :=
  (st.sendText p).andThen (·.sendToolCall p)

theorem ordinary_sendDeltas (st : ChunkState) (p : Object) : Ordinary (st.sendDeltas p).1 :=
  (ordinary_sendText).append (ordinary_sendToolCall)

theorem sendPayload_open (h : closes p = false) :
    st.sendPayload includeUsage p = st.sendDeltas p := by
  obtain ⟨hfinal,hfailure⟩ := (Bool.or_eq_false_iff).1 h
  have key : st.sendPayload includeUsage p = (st.sendDeltas p).andThen fun st => ([],st) := by
    unfold sendPayload sendDeltas
    cases hf : isFailure p with
    | false => simp only [Bool.false_eq_true,if_false,hfinal]
    | true =>
      rw [hf,Bool.true_and] at hfailure
      simp only [if_true,Option.isSome_eq_false_iff.1 hfailure |> Option.isNone_iff_eq_none.1]
  rw [key]
  exact Prod.ext (List.append_nil _) rfl

/-- The chunks of a final payload between the last deltas and the end. -/
def closing (includeUsage : Bool) (finishReason : String) (p : Object) : List Emitted :=
  .chunk ⟨none,none,none,[]⟩ (some finishReason)::
    (if includeUsage then
      [.usage (mapUsage (parseUsage ((p.obj? "response").bind (·.get? "usage"))))] else [])

theorem sendFinal_sent : ∃ finishReason, (st.sendFinal includeUsage p).1 =
      ((st.sendSlots (List.range st.toolCalls.length)).1++
        closing includeUsage finishReason p)++[.done] := by
  refine ⟨(st.sendSlots (List.range st.toolCalls.length)).2.finishReason p,?_⟩
  rw [sendFinal,Sends.andThen,closing]
  simp only [List.append_assoc,List.cons_append,List.nil_append]

variable {finishReason : String}

theorem closing_isDone : ∀ e ∈ closing includeUsage finishReason p, e.isDone = false := by
  intro e he
  rcases List.mem_cons.1 he with rfl | he
  · rfl
  · cases includeUsage with
    | false => cases he
    | true => rw [List.mem_singleton.1 he]; rfl

theorem closing_countP : (closing includeUsage finishReason p).countP Emitted.finishes = 1 := by
  cases includeUsage <;> rfl

theorem sendPayload_final (h : isFinal p = true) :
    ∃ finishReason, (st.sendPayload includeUsage p).1 =
      ((st.sendDeltas p).1++(((st.sendDeltas p).2.sendSlots
        (List.range (st.sendDeltas p).2.toolCalls.length)).1++
          closing includeUsage finishReason p))++[.done] := by
  obtain ⟨finishReason,hsent⟩ := sendFinal_sent
  refine ⟨finishReason,?_⟩
  rw [List.append_assoc,←hsent,sendPayload]
  simp only [isFinal_not_isFailure h,Bool.false_eq_true,if_false,h,if_true]
  rfl

theorem sendPayload_failed (hfinal : isFinal p = false) (h : closes p = true) :
    ∃ e, (st.sendPayload includeUsage p).1 = ((st.sendDeltas p).1++[.error e])++[.done] := by
  rw [closes,hfinal,Bool.false_or,Bool.and_eq_true] at h
  obtain ⟨e,he⟩ := Option.isSome_iff_exists.1 h.2
  refine ⟨e,?_⟩
  rw [sendPayload]
  simp only [h.1,if_true,he]
  exact (List.append_assoc _ [Emitted.error e] [Emitted.done]).symm

theorem sendPayload_closes (h : closes p = true) :
    ∃ before, (st.sendPayload includeUsage p).1 = before++[.done] ∧
      (∀ e ∈ before, e.isDone = false) ∧
      before.countP Emitted.finishes = if isFinal p then 1 else 0 := by
  have hdeltas := ordinary_sendDeltas st p
  cases hfinal : isFinal p with
  | false =>
    obtain ⟨e,hsent⟩ := sendPayload_failed hfinal h
    refine ⟨_,hsent,?_,?_⟩
    · intro x hx
      rcases List.mem_append.1 hx with hx | hx
      · exact (hdeltas x hx).1
      · rw [List.mem_singleton.1 hx]; rfl
    · rw [List.countP_append,hdeltas.countP]
      rfl
  | true =>
    obtain ⟨finishReason,hsent⟩ := sendPayload_final hfinal
    have hslots := ordinary_sendSlots
      (List.range (st.sendDeltas p).2.toolCalls.length) (st.sendDeltas p).2
    refine ⟨_,hsent,?_,?_⟩
    · intro x hx
      rcases List.mem_append.1 hx with hx | hx
      · exact (hdeltas x hx).1
      · rcases List.mem_append.1 hx with hx | hx
        · exact (hslots x hx).1
        · exact closing_isDone x hx
    · rw [List.countP_append,List.countP_append,hdeltas.countP,hslots.countP,closing_countP]
      rfl

theorem sentFrom_open (h : closes p = false) : sentFrom includeUsage st (p::ps) =
      (st.sendDeltas p).1++sentFrom includeUsage (st.sendDeltas p).2 ps := by
  have hdone := (ordinary_sendDeltas st p).any_isDone
  rw [sentFrom]
  simp only [sendPayload_open h,hdone,Bool.false_eq_true,if_false]

theorem sentFrom_closes (h : closes p = true) :
    sentFrom includeUsage st (p::ps) = (st.sendPayload includeUsage p).1 := by
  obtain ⟨before,hsent,-,-⟩ := sendPayload_closes h
  have hdone : (st.sendPayload includeUsage p).1.any Emitted.isDone = true := by
    rw [hsent,List.any_append]
    exact Bool.or_true _
  rw [sentFrom]
  simp only [hdone,if_true]

variable {ps : List Object}

theorem sentFrom_done : ∀ st, (∃ p ∈ ps, closes p = true) → ∃ before,
      sentFrom includeUsage st ps = before++[.done] ∧ (∀ e ∈ before, e.isDone = false) ∧
      before.countP Emitted.finishes = if (ps.find? closes).any isFinal then 1 else 0 := by
  induction ps with
  | nil => intro st ⟨p,hp,_⟩; cases hp
  | cons p ps ih =>
    intro st hex
    cases hp : closes p with
    | true =>
      rw [sentFrom_closes hp,List.find?_cons_of_pos hp]
      exact sendPayload_closes hp
    | false =>
      have hex' : ∃ q ∈ ps, closes q = true := by
        obtain ⟨q,hq,hcloses⟩ := hex
        rcases List.mem_cons.1 hq with rfl | hq
        · rw [hp] at hcloses; cases hcloses
        · exact ⟨q,hq,hcloses⟩
      obtain ⟨before,hsent,hdone,hcount⟩ := ih (st.sendDeltas p).2 hex'
      have hdeltas := ordinary_sendDeltas st p
      rw [List.find?_cons_of_neg (by rw [hp]; exact Bool.false_ne_true)]
      refine ⟨(st.sendDeltas p).1++before,?_,?_,?_⟩
      · rw [sentFrom_open hp,hsent,List.append_assoc]
      · intro e he
        exact (List.mem_append.1 he).elim (fun h => (hdeltas e h).1) (hdone e)
      · rw [List.countP_append,hdeltas.countP,hcount,Nat.zero_add]

theorem sentFrom_endless :
    ∀ st, (∀ p ∈ ps, closes p = false) → ∀ e ∈ sentFrom includeUsage st ps, e.isDone = false := by
  induction ps with
  | nil => intro st _ e he; cases he
  | cons p ps ih =>
    intro st hopen e he
    rw [sentFrom_open (hopen p List.mem_cons_self)] at he
    rcases List.mem_append.1 he with he | he
    · exact (ordinary_sendDeltas st p e he).1
    · exact ih _ (fun q hq => hopen q (List.mem_cons_of_mem _ hq)) e he

theorem find?_closes_of_terminal (h : (ps.find? isTerminal).any isFinal = true) :
    (ps.find? closes).any isFinal = true := by
  induction ps with
  | nil => cases h
  | cons p ps ih =>
    cases hterminal : isTerminal p with
    | true =>
      rw [List.find?_cons_of_pos hterminal] at h
      have hfinal : isFinal p = true := h
      have hcloses : closes p = true := by rw [closes,hfinal,Bool.true_or]
      rw [List.find?_cons_of_pos hcloses]
      exact hfinal
    | false =>
      obtain ⟨hfinal,hfailure⟩ := Bool.or_eq_false_iff.1 hterminal
      have hcloses : closes p = false := by rw [closes,hfinal,hfailure]; rfl
      rw [List.find?_cons_of_neg (by rw [hterminal]; exact Bool.false_ne_true)] at h
      rw [List.find?_cons_of_neg (by rw [hcloses]; exact Bool.false_ne_true)]
      exact ih h

/-- Chunks sent from a stream in which the role has been sent, or not, to one in
which it has been, or not. -/
inductive Voiced : Bool → List Emitted → Bool → Prop where
  | nil (b : Bool) : Voiced b [] b
  | plain {a b : Bool} {e : Emitted} {es : List Emitted} (hrole : e.role = none)
      (hempty : e.carries = false) (rest : Voiced a es b) : Voiced a (e::es) b
  | opening {b : Bool} {e : Emitted} {es : List Emitted} (hrole : e.role = some "assistant")
      (hcarries : e.carries = true) (rest : Voiced true es b) : Voiced false (e::es) b
  | spoken {b : Bool} {e : Emitted} {es : List Emitted} (hrole : e.role = none)
      (rest : Voiced true es b) : Voiced true (e::es) b

variable {a b : Bool} {es : List Emitted}

theorem Voiced.append {c : Bool} {fs : List Emitted} (h : Voiced a es b) (hrest : Voiced b fs c) :
    Voiced a (es++fs) c := by
  induction h with
  | nil b => exact hrest
  | plain hrole hempty _ ih => exact .plain hrole hempty (ih hrest)
  | opening hrole hcarries _ ih => exact .opening hrole hcarries (ih hrest)
  | spoken hrole _ ih => exact .spoken hrole (ih hrest)

theorem Voiced.hushed (h : Voiced a es b) (ha : a = true) : ∀ e ∈ es, e.role = none := by
  induction h with
  | nil b => intro e he; cases he
  | plain hrole _ _ ih =>
    intro e he
    rcases List.mem_cons.1 he with rfl | he
    · exact hrole
    · exact ih ha e he
  | opening => cases ha
  | spoken hrole _ ih =>
    intro e he
    rcases List.mem_cons.1 he with rfl | he
    · exact hrole
    · exact ih rfl e he

theorem Voiced.stays (h : Voiced a es b) (ha : a = true) : b = true := by
  induction h with
  | nil b => exact ha
  | plain _ _ _ ih => exact ih ha
  | opening _ _ _ ih | spoken _ _ ih => exact ih rfl

theorem Voiced.role_first (h : Voiced a es b) (ha : a = false) : RoleFirst es := by
  induction h with
  | nil b =>
    intro before e after h
    cases before <;> cases h
  | @plain _ _ x es hrole hempty _ ih =>
    intro before e after h
    cases before with
    | nil =>
      obtain ⟨rfl,-⟩ := List.cons_eq_cons.1 h
      rw [hrole,hempty]
      exact ⟨nofun,fun h => (nomatch h.1)⟩
    | cons y before =>
      obtain ⟨rfl,hes⟩ := List.cons_eq_cons.1 h
      rw [ih ha before e after hes,List.forall_mem_cons]
      exact and_congr_right fun _ => (and_iff_right hempty).symm
  | @opening _ x es hrole hcarries hes _ =>
    intro before e after h
    cases before with
    | nil =>
      obtain ⟨rfl,-⟩ := List.cons_eq_cons.1 h
      exact ⟨fun _ => ⟨hcarries,fun _ hx => absurd hx List.not_mem_nil⟩,fun _ => hrole⟩
    | cons y before =>
      obtain ⟨rfl,heq⟩ := List.cons_eq_cons.1 h
      have he : e.role = none :=
        hes.hushed rfl e (heq ▸ List.mem_append_right _ List.mem_cons_self)
      rw [he]
      refine ⟨nofun,fun h => ?_⟩
      have hquiet := h.2 _ List.mem_cons_self
      rw [hcarries] at hquiet
      cases hquiet
  | spoken => cases ha

theorem voiced_chunk (hrole : delta.role = st.role)
    (hcarries : st.sentRole = true ∨ (Emitted.chunk delta none).carries = true) :
    Voiced st.sentRole [.chunk delta none] true := by
  cases hsent : st.sentRole with
  | true =>
    refine .spoken ?_ (.nil true)
    rw [Emitted.role,hrole,role,hsent]
    rfl
  | false =>
    rw [hsent] at hcarries
    refine .opening ?_ (hcarries.resolve_left Bool.false_ne_true) (.nil true)
    rw [Emitted.role,hrole,role,hsent]
    rfl

theorem isTextDelta_eq : isTextDelta p =
    (isType p ["response.refusal.delta"] || isType p ["response.output_text.delta"]) := by
  unfold isTextDelta isType
  cases p.text? "type" with
  | none => rfl
  | some t => simp [Option.any]

theorem sendText_of_not (h : isTextDelta p = false) : st.sendText p = ([],st) := by
  rw [isTextDelta_eq,Bool.or_eq_false_iff] at h
  rw [sendText,h.1,h.2]
  rfl

theorem sendText_of_delta (h : isTextDelta p = true) :
    ∃ delta, st.sendText p = ([.chunk delta none],{st with sentRole := true}) ∧
      delta.role = st.role ∧ (Emitted.chunk delta none).carries = (p.text? "delta").isSome := by
  rw [sendText]
  cases hrefusal : isType p ["response.refusal.delta"] with
  | true =>
    simp [Emitted.carries]
  | false =>
    rw [isTextDelta_eq,hrefusal,Bool.false_or] at h
    rw [h]
    simp [Emitted.carries]

theorem voiced_sendText
    (h : st.sentRole = true ∨ (isTextDelta p = true → (p.text? "delta").isSome = true)) :
    Voiced st.sentRole (st.sendText p).1 (st.sendText p).2.sentRole := by
  cases htext : isTextDelta p with
  | false => rw [sendText_of_not htext]; exact .nil _
  | true =>
    obtain ⟨delta,heq,hrole,hcarries⟩ := sendText_of_delta htext
    rw [heq]
    exact voiced_chunk hrole (h.imp_right fun h => by rw [hcarries]; exact h htext)

theorem voiced_sendSlot (st : ChunkState) (index : ℕ) :
    Voiced st.sentRole (st.sendSlot index).1 (st.sendSlot index).2.sentRole := by
  unfold sendSlot
  split
  · exact .nil _
  · split
    · exact .nil _
    · exact voiced_chunk rfl (.inr rfl)

theorem voiced_sendToolCall (st : ChunkState) (p : Object) :
    Voiced st.sentRole (st.sendToolCall p).1 (st.sendToolCall p).2.sentRole := by
  unfold sendToolCall
  split
  · exact .nil _
  · next d toolIndex _ =>
      exact voiced_sendSlot {st with
        toolIndex := toolIndex
        toolCalls := mergeToolCallDelta st.toolCalls d} d.index

theorem voiced_sendSlots {is : List ℕ} : ∀ st : ChunkState,
    Voiced st.sentRole (st.sendSlots is).1 (st.sendSlots is).2.sentRole := by
  induction is with
  | nil => intro st; exact .nil _
  | cons i is ih => intro st; exact (voiced_sendSlot st i).append (ih _)

theorem voiced_sendDeltas
    (h : st.sentRole = true ∨ (isTextDelta p = true → (p.text? "delta").isSome = true)) :
    Voiced st.sentRole (st.sendDeltas p).1 (st.sendDeltas p).2.sentRole :=
  (voiced_sendText h).append (voiced_sendToolCall _ p)

theorem voiced_closing : Voiced b (closing includeUsage finishReason p) b := by
  cases includeUsage with
  | false => exact .plain rfl rfl (.nil b)
  | true => exact .plain rfl rfl (.plain rfl rfl (.nil b))

theorem voiced_sendPayload (hcloses : closes p = true)
    (h : st.sentRole = true ∨ (isTextDelta p = true → (p.text? "delta").isSome = true)) :
    ∃ b, Voiced st.sentRole (st.sendPayload includeUsage p).1 b := by
  have hdeltas := voiced_sendDeltas h
  have hdone (b : Bool) : Voiced b [.done] b := .plain rfl rfl (.nil b)
  cases hfinal : isFinal p with
  | false =>
    obtain ⟨e,hsent⟩ := sendPayload_failed hfinal hcloses
    rw [hsent]
    exact ⟨_,(hdeltas.append (.plain rfl rfl (.nil _))).append (hdone _)⟩
  | true =>
    obtain ⟨finishReason,hsent⟩ := sendPayload_final hfinal
    rw [hsent]
    exact ⟨_,(hdeltas.append ((voiced_sendSlots _).append
      (voiced_closing))).append (hdone _)⟩

theorem sendToolCall_of_not (h : speaks p = false) : st.sendToolCall p = ([],st) := by
  have htool := (Bool.or_eq_false_iff.1 h).2
  unfold sendToolCall toolCallDeltaFromPayload
  cases hevent : isToolCallEvent p with
  | false => simp
  | true =>
    rw [hevent,Bool.true_and,Option.isSome_eq_false_iff,Option.isNone_iff_eq_none] at htool
    simp [htool]

theorem sendDeltas_of_not (h : speaks p = false) : st.sendDeltas p = ([],st) := by
  rw [sendDeltas,sendText_of_not (Bool.or_eq_false_iff.1 h).1]
  exact sendToolCall_of_not h

variable {d : ToolCallDelta}

theorem mergeToolCallDelta_first :
    (mergeToolCallDelta [] d)[d.index]? = some ((ToolCallState.start d.index).applyDelta d) := by
  rw [mergeToolCallDelta,growToolCalls,List.getElem?_modify_eq]
  simp

theorem sendSlot_first (hslots : st.toolCalls = mergeToolCallDelta [] d) :
    (st.sendSlot d.index).2.sentRole = true := by
  have hfresh : ((ToolCallState.start d.index).applyDelta d).buildStreamDelta.1 ≠ none :=
    buildStreamDelta_fresh rfl
  rw [sendSlot,hslots,mergeToolCallDelta_first]
  simp only
  split
  · next heq => rw [heq] at hfresh; exact absurd rfl hfresh
  · rfl

theorem sendToolCall_first (hslots : st.toolCalls = []) (hevent : isToolCallEvent p = true)
    (hfields : (extractToolCallFields p).isSome = true) :
    (st.sendToolCall p).2.sentRole = true := by
  obtain ⟨f,hf⟩ := Option.isSome_iff_exists.1 hfields
  obtain ⟨d,toolIndex,hd⟩ :
      ∃ d toolIndex, toolCallDeltaFromPayload p st.toolIndex = (some d,toolIndex) := by
    rw [toolCallDeltaFromPayload,if_pos hevent,hf]
    exact ⟨_,_,rfl⟩
  rw [sendToolCall,hd]
  exact sendSlot_first (congrArg (mergeToolCallDelta · d) hslots)

theorem sendDeltas_speaks (hslots : st.toolCalls = []) (h : speaks p = true) :
    (st.sendDeltas p).2.sentRole = true := by
  cases htext : isTextDelta p with
  | false =>
    rw [speaks,htext,Bool.false_or,Bool.and_eq_true] at h
    rw [sendDeltas,sendText_of_not htext]
    exact sendToolCall_first hslots h.1 h.2
  | true =>
    obtain ⟨delta,heq,-,-⟩ := sendText_of_delta htext
    rw [sendDeltas,heq]
    have hvoiced := voiced_sendToolCall {st with sentRole := true} p
    exact hvoiced.stays rfl

theorem voiced_sentFrom : ∀ st : ChunkState,
    (st.sentRole = true ∨ st.toolCalls = [] ∧ opensWell ps = true) →
    ∃ b, Voiced st.sentRole (sentFrom includeUsage st ps) b := by
  induction ps with
  | nil => intro st _; exact ⟨_,.nil _⟩
  | cons p ps ih =>
    intro st h
    have hopens : st.sentRole = true ∨
        (isTextDelta p = true → (p.text? "delta").isSome = true) := by
      refine h.imp_right fun ⟨_,hwell⟩ htext => ?_
      have hspeaks : speaks p = true := by rw [speaks,htext,Bool.true_or]
      simpa only [opensWell,hspeaks,if_true,htext,Bool.not_true,Bool.false_or] using hwell
    cases hcloses : closes p with
    | true =>
      rw [sentFrom_closes hcloses]
      exact voiced_sendPayload hcloses hopens
    | false =>
      rw [sentFrom_open hcloses]
      have hdeltas := voiced_sendDeltas hopens
      have hnext : (st.sendDeltas p).2.sentRole = true ∨
          (st.sendDeltas p).2.toolCalls = [] ∧ opensWell ps = true := by
        rcases h with hsent | ⟨hslots,hwell⟩
        · exact .inl (hdeltas.stays hsent)
        · cases hspeaks : speaks p with
          | true => exact .inl (sendDeltas_speaks hslots hspeaks)
          | false =>
            rw [sendDeltas_of_not hspeaks]
            rw [opensWell,hspeaks,hcloses] at hwell
            exact .inr ⟨hslots,hwell⟩
      obtain ⟨b,hrest⟩ := ih (st.sendDeltas p).2 hnext
      exact ⟨b,hdeltas.append hrest⟩

theorem sentFrom_empty_role (hsent : st.sentRole = false) (h : opensWell ps = false) :
    ∃ e rest, sentFrom includeUsage st ps = e::rest ∧ e.role = some "assistant" ∧
      e.carries = false := by
  induction ps with
  | nil => cases h
  | cons p ps ih =>
    cases hspeaks : speaks p with
    | false =>
      rw [opensWell,hspeaks] at h
      obtain ⟨hcloses,hrest⟩ := Bool.or_eq_false_iff.1 h
      rw [sentFrom_open hcloses,sendDeltas_of_not hspeaks]
      exact ih hrest
    | true =>
      rw [opensWell,hspeaks,if_pos rfl,Bool.or_eq_false_iff,Bool.not_eq_false'] at h
      obtain ⟨delta,heq,hrole,hcarries⟩ := sendText_of_delta h.1
      have hstart : ∃ rest, (st.sendDeltas p).1 = .chunk delta none::rest := by
        rw [sendDeltas,heq]
        exact ⟨_,rfl⟩
      have hopening : (Emitted.chunk delta none).role = some "assistant" := by
        rw [Emitted.role,hrole,role,hsent]
        rfl
      obtain ⟨rest,hdeltas⟩ := hstart
      cases hcloses : closes p with
      | false =>
        rw [sentFrom_open hcloses,hdeltas]
        exact ⟨_,_,rfl,hopening,hcarries.trans h.2⟩
      | true =>
        rw [sentFrom_closes hcloses]
        cases hfinal : isFinal p with
        | false =>
          obtain ⟨e,hlast⟩ := sendPayload_failed hfinal hcloses
          rw [hlast,hdeltas]
          exact ⟨_,_,rfl,hopening,hcarries.trans h.2⟩
        | true =>
          obtain ⟨finishReason,hlast⟩ := sendPayload_final hfinal
          rw [hlast,hdeltas]
          exact ⟨_,_,rfl,hopening,hcarries.trans h.2⟩

/-- A stream is properly terminated when some payload closes it and, up to there,
the first payload that speaks has something to say. -/
theorem properly_terminated_iff (includeUsage : Bool) (lines : List (Option Object)) :
    ProperlyTerminated lines (streamChatChunks includeUsage lines) ↔
      (∃ p ∈ payloads lines, closes p = true) ∧ opensWell (payloads lines) = true := by
  rw [streamChatChunks,streamFrom_eq]
  constructor
  · intro h
    constructor
    · by_contra hopen
      obtain ⟨before,hsent,-⟩ := h.done_last
      have hdone := sentFrom_endless .start
        (fun p hp => Bool.eq_false_iff.2 fun hcloses => hopen ⟨p,hp,hcloses⟩) .done
        (hsent ▸ List.mem_append_right _ List.mem_cons_self)
      cases hdone
    · by_contra hwell
      obtain ⟨e,rest,hsent,hrole,hempty⟩ := sentFrom_empty_role
        (show start.sentRole = false from rfl) (Bool.eq_false_iff.2 hwell)
      have hcarries := ((h.role_first [] e rest hsent).1 hrole).1
      rw [hempty] at hcarries
      cases hcarries
  · rintro ⟨hcloses,hwell⟩
    obtain ⟨before,hsent,hdone,hcount⟩ := sentFrom_done .start hcloses
    obtain ⟨b,hvoiced⟩ := voiced_sentFrom .start (.inr ⟨rfl,hwell⟩)
    have htotal : (sentFrom includeUsage .start (payloads lines)).countP Emitted.finishes =
        if ((payloads lines).find? closes).any isFinal then 1 else 0 := by
      rw [hsent,List.countP_append,hcount]
      rfl
    refine ⟨⟨before,hsent,hdone⟩,?_,?_,hvoiced.role_first rfl⟩
    · rw [htotal]
      split <;> decide
    · intro hfirst
      rw [htotal,find?_closes_of_terminal hfirst]
      rfl

def bareFailure : Object := ⟨[("type",.str "response.failed")]⟩

def emptyDelta : Object := ⟨[("type",.str "response.output_text.delta")]⟩

/-- A failure without an error object ends the lines and not the chunks, and a
delta without a text takes the role. -/
theorem bare_failure_and_empty_delta : (isTerminal bareFailure = true ∧
      ¬ProperlyTerminated [some bareFailure] (streamChatChunks false [some bareFailure])) ∧
    isTerminal completed = true ∧
      ¬ProperlyTerminated [some emptyDelta,some completed]
        (streamChatChunks false [some emptyDelta,some completed]) := by
  refine ⟨⟨by decide +kernel,fun h => ?_⟩,by decide +kernel,fun h => ?_⟩
  · obtain ⟨before,hsent,-⟩ := h.done_last
    have hnone : (streamChatChunks false [some bareFailure]).isEmpty = true := by decide +kernel
    rw [hsent] at hnone
    cases before <;> cases hnone
  · have hhead : ((streamChatChunks false [some emptyDelta,some completed]).head?.map
        fun e => (e.role,e.carries)) = some (some "assistant",false) := by decide +kernel
    cases hsent : streamChatChunks false [some emptyDelta,some completed] with
    | nil => rw [hsent] at hhead; cases hhead
    | cons e rest =>
      rw [hsent] at hhead
      obtain ⟨hrole,hempty⟩ := Prod.mk.inj (Option.some.inj hhead)
      have hcarries := ((h.role_first [] e rest hsent).1 hrole).1
      rw [hempty] at hcarries
      cases hcarries

end CodexLb.Chat
