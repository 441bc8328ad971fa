import CodexLb.Dict
import CodexLb.JsonValues

/-!
# Tool calls of a chat completion

The part of `app/core/openai/chat_responses.py` that both consumers of a
Responses stream share: which events belong to a tool call, the fields they
carry, the slot of the call they belong to, and the state of a slot. A line of
the stream is given by the object its data holds; the wire format is read
elsewhere.
-/
namespace CodexLb.Chat
open Json

/-- `_first_str`. -/
def firstStr : List (Option Json) → Option String
  | [] => none
  | some (.str s)::vs => if s = "" then firstStr vs else some s
  | _::vs => firstStr vs

structure ToolCallIndex where
  indexes : Dict String ℕ
  nextIndex : ℕ
  outputIndexMap : Dict ℤ ℕ

def ToolCallIndex.empty : ToolCallIndex := ⟨Dict.empty,0,Dict.empty⟩

/-- `_tool_call_key`. -/
def toolCallKey (callId name : Option String) : Option String :=
  match callId.filter (· ≠ ""),name.filter (· ≠ "") with
  | some c,_ => some ("id:"++c)
  | none,some n => some ("name:"++n)
  | none,none => none

namespace ToolCallIndex
variable (t : ToolCallIndex)

def setIndex (key : String) (index : ℕ) : ToolCallIndex :=
  if (t.indexes.get? key).isSome then t else {t with indexes := t.indexes.set key index}

/-- `register_output_index`. -/
def registerOutputIndex (outputIndex : ℤ) (index : ℕ) : ToolCallIndex :=
  if (t.outputIndexMap.get? outputIndex).isSome then t
  else {t with outputIndexMap := t.outputIndexMap.set outputIndex index}

/-- `register_alias`. -/
def registerAlias (aliasId : String) (index : ℕ) : ToolCallIndex := t.setIndex ("id:"++aliasId) index

/-- The slot of a key, a new one if it has none. -/
def indexForKey (key : String) : ℕ × ToolCallIndex :=
  match t.indexes.get? key with
  | some index => (index,t)
  | none => (t.nextIndex,{t with
      indexes := t.indexes.set key t.nextIndex
      nextIndex := t.nextIndex+1})

/-- `index_for_output_index`. -/
def indexForOutputIndex (outputIndex : Option ℤ) (callId name : Option String) :
    ℕ × ToolCallIndex :=
  match outputIndex.bind t.outputIndexMap.get?,toolCallKey callId name,outputIndex with
  | some index,some key,_ => (index,t.setIndex key index)
  | some index,none,_ => (index,t)
  | none,none,some o =>
    (t.nextIndex,{t.registerOutputIndex o t.nextIndex with nextIndex := t.nextIndex+1})
  | none,none,none => (0,t)
  | none,some key,some o =>
    let r := t.indexForKey key
    (r.1,r.2.registerOutputIndex o r.1)
  | none,some key,none => t.indexForKey key

end ToolCallIndex

inductive ArgumentsMode where
  | append | replace
  deriving DecidableEq, Repr

structure ToolCallDelta where
  index : ℕ
  callId : Option String
  name : Option String
  arguments : Option String
  toolType : Option String
  argumentsMode : ArgumentsMode
  deriving DecidableEq, Repr

def isToolItem (item : Object) : Bool :=
  (item.text? "type").any (fun t => Text.includes t "tool" || Text.includes t "function") ||
    ["call_id","tool_call_id","arguments","function","name"].any item.has

variable (payload : Object)

/-- `_is_tool_call_event`. -/
def isToolCallEvent : Bool :=
  (payload.text? "type").any
      (fun t => Text.includes t "tool_call" || Text.includes t "function_call") ||
    (payload.obj? "item").any isToolItem ||
    ["call_id","tool_call_id"].any payload.has ||
    (payload.has "arguments" && (payload.has "name" || payload.has "function"))

/-- `_select_tool_call_candidate`. -/
def selectToolCallCandidate : Object :=
  match payload.obj? "item" with
  | some item => if isToolItem item then item else payload
  | none => payload

structure ToolCallFields where
  callId : Option String
  name : Option String
  arguments : Option String
  toolType : Option String
  deriving DecidableEq, Repr

def candidateCallId (candidate : Object) (delta : Option Object) : Option String :=
  firstStr [candidate.get? "call_id",candidate.get? "tool_call_id",candidate.get? "id"] <|>
    delta.bind fun d => firstStr [d.get? "id",d.get? "call_id",d.get? "tool_call_id"]

def candidateName (candidate : Object) (delta : Option Object) : Option String :=
  firstStr [candidate.get? "name",candidate.get? "tool_name"] <|>
    (delta.bind fun d => firstStr [d.get? "name"]) <|>
    ((candidate.obj? "function").bind fun f => firstStr [f.get? "name"]) <|>
    ((delta.bind (·.obj? "function")).bind fun f => firstStr [f.get? "name"])

def candidateArguments (candidate : Object) (delta : Option Object) : Option String :=
  candidate.text? "arguments" <|> candidate.text? "delta" <|>
    delta.bind fun d => d.text? "arguments" <|> (d.obj? "function").bind (·.text? "arguments")

def candidateToolType (candidate : Object) : Option String :=
  match firstStr [candidate.get? "tool_type",candidate.get? "type"] with
  | none => none
  | some t =>
    if Text.startsWith t "response." then none
    else if t = "tool_call" ∨ t = "function_call" then some "function"
    else some t

/-- `_extract_tool_call_fields`. -/
def extractToolCallFields : Option ToolCallFields :=
  let candidate := selectToolCallCandidate payload
  let delta := candidate.obj? "delta"
  let fields : ToolCallFields :=
    ⟨candidateCallId candidate delta,candidateName candidate delta,
      candidateArguments candidate delta,candidateToolType candidate⟩
  if fields.callId = none ∧ fields.name = none ∧ fields.arguments = none then none
  else some fields

/-- `_tool_call_arguments_mode`: only a delta appends. -/
def toolCallArgumentsMode : ArgumentsMode :=
  if (payload.text? "type").any (Text.endsWith · ".delta") then .append else .replace

/-- The id of an item stands for its slot, unless it is the id of the call. -/
def registerItemId (item : Object) (index : ℕ) (indexer : ToolCallIndex) : ToolCallIndex :=
  match item.text? "id" with
  | none => indexer
  | some itemId =>
    if itemId = "" ∨ item.text? "call_id" = some itemId then indexer
    else indexer.registerAlias itemId index

/-- `_register_item_id_alias`. -/
def registerItemIdAlias (index : ℕ) (indexer : ToolCallIndex) : ToolCallIndex :=
  match payload.obj? "item",payload.int? "output_index" with
  | none,_ => indexer
  | some item,none => registerItemId item index indexer
  | some item,some o => (registerItemId item index indexer).registerOutputIndex o index

/-- `_tool_call_delta_from_payload`. -/
def toolCallDeltaFromPayload (indexer : ToolCallIndex) : Option ToolCallDelta × ToolCallIndex :=
  if isToolCallEvent payload then
    match extractToolCallFields payload with
    | none => (none,indexer)
    | some f =>
      let routingId := f.callId <|>
        firstStr [payload.get? "item_id",(payload.obj? "item").bind (·.get? "id")]
      let r := indexer.indexForOutputIndex (payload.int? "output_index") routingId f.name
      (some ⟨r.1,f.callId,f.name,f.arguments,f.toolType,toolCallArgumentsMode payload⟩,
        registerItemIdAlias payload r.1 r.2)
  else (none,indexer)

structure ToolCallFunction where
  name : Option String
  arguments : Option String
  deriving DecidableEq, Repr

/-- `_build_tool_call_function`. -/
def buildToolCallFunction (name arguments : Option String) : Option ToolCallFunction :=
  if name = none ∧ arguments = none then none else some ⟨name,arguments⟩

/-- A tool call in a chunk: `ChatToolCallDelta`. -/
structure ChunkToolCall where
  index : ℕ
  id : Option String
  type : String
  function : Option ToolCallFunction
  deriving DecidableEq, Repr

structure MessageToolCall where
  id : Option String
  type : String
  function : Option ToolCallFunction
  deriving DecidableEq, Repr

structure ToolCallState where
  index : ℕ
  callId : Option String
  name : Option String
  arguments : String
  toolType : String
  emittedCallId : Option String
  emittedName : Option String
  emittedArguments : String
  emittedToolType : Option String
  deriving DecidableEq, Repr

def ToolCallState.start (index : ℕ) : ToolCallState :=
  ⟨index,none,none,"","function",none,none,"",none⟩

/-- `value or "function"`. -/
def orFunction (t : String) : String := if t = "" then "function" else t

/-- `_pending_stream_value`. -/
def pendingStreamValue (emitted current : Option String) : Option String :=
  if current = emitted then none else current

/-- `_pending_stream_arguments`. -/
def pendingStreamArguments (emitted current : String) : Option String :=
  if current = "" ∨ current = emitted then none
  else if emitted = "" then some current
  else if Text.startsWith current emitted then some (Text.dropFirst current emitted.length)
  else none

def ToolCallDelta.argumentsAfter (d : ToolCallDelta) (old : String) : String :=
  match d.arguments,d.argumentsMode with
  | none,_ => old
  | some a,.replace => a
  | some a,.append => old++a

namespace ToolCallState
variable (s : ToolCallState)

/-- `apply_delta`. -/
def applyDelta (d : ToolCallDelta) : ToolCallState :=
  {s with
    callId := d.callId.filter (· ≠ "") <|> s.callId
    name := d.name.filter (· ≠ "") <|> s.name
    arguments := d.argumentsAfter s.arguments
    toolType := (d.toolType.filter (· ≠ "")).getD s.toolType}

/-- `build_stream_delta`, as the tool call of the chunk it is sent in. -/
def buildStreamDelta : Option ChunkToolCall × ToolCallState :=
  let callId := pendingStreamValue s.emittedCallId s.callId
  let name := pendingStreamValue s.emittedName s.name
  let arguments := pendingStreamArguments s.emittedArguments s.arguments
  let toolType := orFunction s.toolType
  if callId = none ∧ name = none ∧ arguments = none ∧ s.emittedToolType = some toolType then
    (none,s)
  else
    (some ⟨s.index,callId,orFunction toolType,buildToolCallFunction name arguments⟩,
      {s with
        emittedCallId := if callId = none then s.emittedCallId else s.callId
        emittedName := if name = none then s.emittedName else s.name
        emittedArguments := if arguments = none then s.emittedArguments else s.arguments
        emittedToolType := some toolType})

/-- `to_message_tool_call`. -/
def toMessageToolCall : Option MessageToolCall :=
  let function := buildToolCallFunction s.name (if s.arguments = "" then none else some s.arguments)
  if s.callId = none ∧ function = none then none
  else some ⟨s.callId,orFunction s.toolType,function⟩

end ToolCallState

def growToolCalls (calls : List ToolCallState) (index : ℕ) : List ToolCallState :=
  calls++(List.range' calls.length (index+1-calls.length)).map ToolCallState.start

/-- `_merge_tool_call_delta`. -/
def mergeToolCallDelta (calls : List ToolCallState) (d : ToolCallDelta) : List ToolCallState :=
  (growToolCalls calls d.index).modify d.index (·.applyDelta d)

/-- `_compact_tool_calls`. -/
def compactToolCalls (calls : List ToolCallState) : List MessageToolCall :=
  calls.filterMap ToolCallState.toMessageToolCall

end CodexLb.Chat
