import CodexLb.ChatToolCalls

/-!
# Two consumers of a Responses stream

`stream_chat_chunks` turns the lines of a Responses stream into the chunks of a
streamed chat completion, `collect_chat_completion` reads the same lines and
returns one completion. `foldChunks` is what a client makes of the chunks.

The id, the time and the model that every chunk repeats are left out, and so is
the error envelope that is built from an upstream error.
-/
namespace CodexLb.Chat
open Json

structure ResponseUsage where
  inputTokens : Option ℤ
  outputTokens : Option ℤ
  totalTokens : Option ℤ
  cachedTokens : Option ℤ
  reasoningTokens : Option ℤ
  deriving DecidableEq, Repr

/-- A row that holds an integer, null, or nothing; `none` is a row that does not
validate. -/
def strictInt (o : Object) (key : String) : Option (Option ℤ) :=
  match o.get? key with
  | none | some .null => some none
  | some (.int n) => some (some n)
  | _ => none

def usageDetail (o : Object) (key field : String) : Option (Option ℤ) :=
  match o.get? key with
  | none | some .null => some none
  | some (.obj rows) => do
      let cached ← strictInt ⟨rows⟩ "cached_tokens"
      let reasoning ← strictInt ⟨rows⟩ "reasoning_tokens"
      return if field = "cached_tokens" then cached else reasoning
  | _ => none

/-- `_parse_usage`. -/
def parseUsage : Option Json → Option ResponseUsage
  | some (.obj rows) => do
      let inputTokens ← strictInt ⟨rows⟩ "input_tokens"
      let outputTokens ← strictInt ⟨rows⟩ "output_tokens"
      let totalTokens ← strictInt ⟨rows⟩ "total_tokens"
      let cached ← usageDetail ⟨rows⟩ "input_tokens_details" "cached_tokens"
      let reasoning ← usageDetail ⟨rows⟩ "output_tokens_details" "reasoning_tokens"
      return ⟨inputTokens,outputTokens,totalTokens,cached,reasoning⟩
  | _ => none

/-- `_map_usage`. -/
def mapUsage : Option ResponseUsage → Option ResponseUsage
  | none => none
  | some u =>
    if u.inputTokens = none ∧ u.outputTokens = none ∧ u.totalTokens = none then none else some u

def isType (payload : Object) (types : List String) : Bool :=
  (payload.text? "type").any (· ∈ types)

def isFinal (payload : Object) : Bool := isType payload ["response.completed","response.incomplete"]

def isFailure (payload : Object) : Bool := isType payload ["response.failed","error"]

def failureError (payload : Object) : Option Object :=
  if payload.text? "type" = some "response.failed" then
    (payload.obj? "response").bind (·.obj? "error")
  else payload.obj? "error"

/-- `_finish_reason_from_incomplete`. -/
def finishReasonFromIncomplete (response : Option Object) : String :=
  match (response.bind (·.obj? "incomplete_details")).bind (·.text? "reason") with
  | some reason =>
    if reason = "max_output_tokens" ∨ reason = "max_tokens" then "length"
    else if reason = "content_filter" then "content_filter"
    else "stop"
  | none => "stop"

structure ChunkDelta where
  role : Option String
  content : Option String
  refusal : Option String
  toolCalls : List ChunkToolCall
  deriving DecidableEq, Repr

inductive Emitted where
  | chunk (delta : ChunkDelta) (finishReason : Option String)
  | usage (u : Option ResponseUsage)
  | error (e : Object)
  | done

structure ChunkState where
  toolIndex : ToolCallIndex
  toolCalls : List ToolCallState
  sawToolCall : Bool
  sentRole : Bool

def ChunkState.start : ChunkState := ⟨.empty,[],false,false⟩

/-- What a part of the loop body sends, and the state after it. -/
abbrev Sends := List Emitted × ChunkState

def Sends.andThen (a : Sends) (f : ChunkState → Sends) : Sends :=
  let b := f a.2
  (a.1++b.1,b.2)

namespace ChunkState
variable (st : ChunkState)

def role : Option String := if st.sentRole then none else some "assistant"

def sendText (payload : Object) : Sends :=
  if isType payload ["response.refusal.delta"] then
    ([.chunk ⟨st.role,none,payload.text? "delta",[]⟩ none],{st with sentRole := true})
  else if isType payload ["response.output_text.delta"] then
    ([.chunk ⟨st.role,payload.text? "delta",none,[]⟩ none],{st with sentRole := true})
  else ([],st)

def sendSlot (index : ℕ) : Sends :=
  match st.toolCalls[index]? with
  | none => ([],st)
  | some s =>
    match s.buildStreamDelta with
    | (none,_) => ([],st)
    | (some call,s) =>
      ([.chunk ⟨st.role,none,none,[call]⟩ none],{st with
        toolCalls := st.toolCalls.set index s
        sawToolCall := true
        sentRole := true})

def sendToolCall (payload : Object) : Sends :=
  match toolCallDeltaFromPayload payload st.toolIndex with
  | (none,toolIndex) => ([],{st with toolIndex := toolIndex})
  | (some d,toolIndex) =>
    ChunkState.sendSlot {st with
      toolIndex := toolIndex
      toolCalls := mergeToolCallDelta st.toolCalls d} d.index

def sendSlots : ChunkState → List ℕ → Sends
  | s,[] => ([],s)
  | s,i::is => (s.sendSlot i).andThen (sendSlots · is)

def finishReason (payload : Object) : String :=
  if st.sawToolCall then "tool_calls"
  else if isType payload ["response.incomplete"] then
    finishReasonFromIncomplete (payload.obj? "response")
  else "stop"

def sendFinal (includeUsage : Bool) (payload : Object) : Sends :=
  (st.sendSlots (List.range st.toolCalls.length)).andThen fun st =>
    ([.chunk ⟨none,none,none,[]⟩ (some (st.finishReason payload))]++
      (if includeUsage then
        [.usage (mapUsage (parseUsage ((payload.obj? "response").bind (·.get? "usage"))))]
      else [])++[.done],st)

/-- The body of the loop of `iter_chat_chunks`. -/
def sendPayload (includeUsage : Bool) (payload : Object) : Sends :=
  ((st.sendText payload).andThen (·.sendToolCall payload)).andThen fun st =>
    if isFailure payload then
      match failureError payload with
      | some e => ([.error e,.done],st)
      | none => ([],st)
    else if isFinal payload then st.sendFinal includeUsage payload
    else ([],st)

end ChunkState

def Emitted.isDone : Emitted → Bool
  | .done => true
  | _ => false

def linePayload (line : Option Object) : Option Object := line.filter fun o => !o.rows.isEmpty

/-- `stream_chat_chunks` from a state on: after the last chunk the lines are read
and nothing is sent. -/
def streamFrom (includeUsage : Bool) : ChunkState → List (Option Object) → List Emitted
  | _,[] => []
  | st,line::lines =>
    match linePayload line with
    | none => streamFrom includeUsage st lines
    | some payload =>
      let a := st.sendPayload includeUsage payload
      if a.1.any Emitted.isDone then a.1 else a.1++streamFrom includeUsage a.2 lines

def streamChatChunks (includeUsage : Bool) (lines : List (Option Object)) : List Emitted :=
  streamFrom includeUsage .start lines

structure Completion where
  id : String
  content : Option String
  refusal : Option String
  toolCalls : Option (List MessageToolCall)
  finishReason : String
  usage : Option ResponseUsage
  deriving DecidableEq, Repr

inductive CompletionResult where
  | completion (c : Completion)
  | error (e : Option Object)

structure CollectState where
  content : String
  refusal : String
  responseId : Option String
  usage : Option ResponseUsage
  incompleteReason : Option String
  toolIndex : ToolCallIndex
  toolCalls : List ToolCallState

def CollectState.start : CollectState := ⟨"","",none,none,none,.empty,[]⟩

namespace CollectState
variable (st : CollectState)

def addText (payload : Object) : CollectState :=
  if isType payload ["response.output_text.delta"] then
    {st with content := st.content++(payload.text? "delta").getD ""}
  else if isType payload ["response.refusal.delta"] then
    {st with refusal := st.refusal++(payload.text? "delta").getD ""}
  else st

def addToolCall (payload : Object) : CollectState :=
  match toolCallDeltaFromPayload payload st.toolIndex with
  | (none,toolIndex) => {st with toolIndex := toolIndex}
  | (some d,toolIndex) => {st with
      toolIndex := toolIndex
      toolCalls := mergeToolCallDelta st.toolCalls d}

def addFinal (payload : Object) : CollectState :=
  match payload.obj? "response" with
  | none => st
  | some response => {st with
      responseId := response.text? "id" <|> st.responseId
      usage := parseUsage (response.get? "usage")
      incompleteReason := if isType payload ["response.incomplete"] then
        some (finishReasonFromIncomplete (some response)) else st.incompleteReason}

def finish : Completion :=
  let refusal := if st.refusal = "" then none else some st.refusal
  let toolCalls := compactToolCalls st.toolCalls
  {id := (st.responseId.filter (· ≠ "")).getD "chatcmpl_temp"
   content := if (toolCalls ≠ [] ∨ refusal ≠ none) ∧ st.content = "" then none else some st.content
   refusal := refusal
   toolCalls := if toolCalls = [] then none else some toolCalls
   finishReason := if toolCalls ≠ [] then "tool_calls"
     else (st.incompleteReason.filter (· ≠ "")).getD "stop"
   usage := mapUsage st.usage}

end CollectState

/-- `collect_chat_completion` from a state on. -/
def collectFrom : CollectState → List (Option Object) → CompletionResult
  | st,[] => .completion st.finish
  | st,line::lines =>
    match linePayload line with
    | none => collectFrom st lines
    | some payload =>
      let st := (st.addText payload).addToolCall payload
      if isFailure payload then .error (failureError payload)
      else collectFrom (if isFinal payload then st.addFinal payload else st) lines

def collectChatCompletion (lines : List (Option Object)) : CompletionResult :=
  collectFrom .start lines

structure FoldedCall where
  id : Option String
  type : Option String
  name : Option String
  arguments : String
  deriving DecidableEq, Repr

def FoldedCall.add (call : FoldedCall) (d : ChunkToolCall) : FoldedCall where
  id := d.id <|> call.id
  type := some d.type
  name := d.function.bind (·.name) <|> call.name
  arguments := call.arguments++(d.function.bind (·.arguments)).getD ""

structure Folded where
  content : String
  refusal : String
  toolCalls : List (Option FoldedCall)
  finishReason : Option String
  deriving DecidableEq, Repr

def Folded.start : Folded := ⟨"","",[],none⟩

def placeToolCall (calls : List (Option FoldedCall)) (d : ChunkToolCall) :
    List (Option FoldedCall) :=
  (calls++List.replicate (d.index+1-calls.length) none).modify d.index fun call =>
    some ((call.getD ⟨none,none,none,""⟩).add d)

def Folded.add (f : Folded) : Emitted → Folded
  | .chunk delta finishReason => {
      content := f.content++delta.content.getD ""
      refusal := f.refusal++delta.refusal.getD ""
      toolCalls := delta.toolCalls.foldl placeToolCall f.toolCalls
      finishReason := finishReason <|> f.finishReason}
  | _ => f

def foldChunks (emitted : List Emitted) : Folded := emitted.foldl Folded.add .start

def Folded.calls (f : Folded) : List FoldedCall := f.toolCalls.filterMap id

def MessageToolCall.folded (call : MessageToolCall) : FoldedCall where
  id := call.id
  type := some call.type
  name := call.function.bind (·.name)
  arguments := (call.function.bind (·.arguments)).getD ""

/-- The chunks and the completion say the same, where an empty text and none are
the same. -/
def Agree (f : Folded) : CompletionResult → Prop
  | .completion c =>
    f.content = c.content.getD "" ∧ f.refusal = c.refusal.getD "" ∧
      f.calls = (c.toolCalls.getD []).map MessageToolCall.folded ∧
      f.finishReason = some c.finishReason
  | .error _ => False

instance (f : Folded) : (r : CompletionResult) → Decidable (Agree f r)
  | .completion _ => inferInstanceAs (Decidable (_ ∧ _ ∧ _ ∧ _))
  | .error _ => inferInstanceAs (Decidable False)

end CodexLb.Chat
