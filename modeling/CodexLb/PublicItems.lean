import CodexLb.JsonValues
import CodexLb.PythonText
import CodexLb.SortedDict

/-!
# Events of the public Responses surface

How `app/modules/proxy/api.py` normalises a single event of an upstream stream
for the public surface: output items, the response of a terminal event, and the
errors it makes up itself. The time at which a failed response was made is left
out, and so is the counter of violations.
-/
namespace CodexLb.Public
open Json

inductive ViolationKind where
  | invalidJson | invalidOutputItem | upstreamStreamTruncated
  deriving DecidableEq, Repr

namespace ViolationKind

def name : ViolationKind → String
  | invalidJson => "invalid_json"
  | invalidOutputItem => "invalid_output_item"
  | upstreamStreamTruncated => "upstream_stream_truncated"

/-- `_public_contract_error_message`. -/
def message : ViolationKind → String
  | invalidJson => "Responses stream produced an invalid JSON payload"
  | invalidOutputItem => "Responses stream produced unsupported output items"
  | upstreamStreamTruncated => "Responses stream ended before a terminal event"

end ViolationKind

variable (payload : Object)

def eventType : Option String := payload.text? "type"

def isType (types : List String) : Bool := (eventType payload).any (· ∈ types)

def isCreated : Bool := isType payload ["response.created"]

def isTerminal : Bool :=
  isType payload ["response.completed","response.incomplete","response.failed","error"]

def isFinished : Bool := isType payload ["response.completed","response.incomplete"]

def isItemEvent : Bool :=
  isType payload ["response.output_item.added","response.output_item.done"]

def outputItemTypes : List String :=
  ["message","function_call","function_call_output","reasoning","web_search_call",
    "file_search_call","computer_call","code_interpreter_call","mcp_approval_request",
    "mcp_list_tools","output_image"]

/-- `_is_public_passthrough_output_item_type`. -/
def isPassthroughType (t : String) : Bool :=
  t ∈ outputItemTypes || Text.endsWith t "_call" || Text.endsWith t "_call_output"

/-- A row that holds a text other than the empty one. -/
def filledText (o : Object) (key : String) : Option String := (o.text? key).filter (· ≠ "")

def contentParts : Option Json → List Object
  | some (.obj rows) => [⟨rows⟩]
  | some (.arr xs) => xs.filterMap Json.obj?
  | _ => []

def contentText (item : Object) : Option String :=
  match (contentParts (item.get? "content")).filterMap (filledText · "text") with
  | [] => none
  | parts => some (String.join parts)

/-- `_extract_public_output_item_text`. -/
def outputItemText (item : Object) : Option String :=
  filledText item "text" <|> contentText item <|> filledText item "summary"

def textMessage (item : Object) (text : String) : Object :=
  let normalized : Object := ⟨[
    ("type",.str "message"),
    ("role",.str "assistant"),
    ("status",.str ((item.text? "status").getD "completed")),
    ("content",.arr [.obj [("type",.str "output_text"),("text",.str text)]])]⟩
  match filledText item "id" with
  | some id => normalized.set "id" (.str id)
  | none => normalized

/-- `_normalize_public_output_item`. -/
def normalizeOutputItem (item : Object) : Option Object :=
  if (item.text? "type").any isPassthroughType then some item
  else (outputItemText item).map (textMessage item)

abbrev OutputItems := Dict ℤ Object

/-- `_collect_output_item_event`. -/
def collectOutputItem (items : OutputItems) : OutputItems :=
  if isItemEvent payload then
    match payload.int? "output_index",payload.obj? "item" with
    | some index,some item => items.set index item
    | _,_ => items
  else items

def ownOutput (response : Object) : Bool := (response.arr? "output").any (!·.isEmpty)

/-- `_merge_collected_output_items`. -/
def mergeOutputItems (response : Object) (items : OutputItems) : Object :=
  if items.rows.isEmpty || ownOutput response then response
  else response.set "output" (.arr (items.sortedRows.map fun q => q.2.toJson))

def normalizeOutput (output : List Json) : List Object :=
  output.filterMap fun item => item.obj?.bind normalizeOutputItem

def normalizeMerged (merged : Object) : Option Object × Option ViolationKind :=
  match merged.arr? "output" with
  | none => (some merged,none)
  | some output =>
    let normalized := normalizeOutput output
    if !output.isEmpty && normalized.isEmpty then (none,some .invalidOutputItem)
    else (some (merged.set "output" (.arr (normalized.map Object.toJson))),
      if normalized.length = output.length then none else some .invalidOutputItem)

/-- `_normalize_public_response_mapping`. -/
def normalizeResponse (response : Object) (items : OutputItems) :
    Option Object × Option ViolationKind :=
  normalizeMerged (mergeOutputItems response items)

structure OpenAIError where
  message : Option String
  type : Option String
  code : Option String
  param : Option String
  deriving DecidableEq, Repr

/-- A row that holds a text, null, or nothing; `none` is a row that does not
validate. -/
def strictStr (o : Object) (key : String) : Option (Option String) :=
  match o.get? key with
  | none | some .null => some none
  | some (.str s) => some (some s)
  | _ => none

def strictNumber (o : Object) (key : String) : Option Unit :=
  match o.get? key with
  | none | some .null | some (.int _) | some (.float _) => some ()
  | _ => none

def validateError (o : Object) : Option OpenAIError := do
  let message ← strictStr o "message"
  let type ← strictStr o "type"
  let code ← strictStr o "code"
  let param ← strictStr o "param"
  let _ ← strictStr o "plan_type"
  strictNumber o "resets_at"
  strictNumber o "resets_in_seconds"
  return ⟨message,type,code,param⟩

def defaultError : OpenAIError :=
  ⟨some "Upstream error",some "server_error",some "upstream_error",none⟩

/-- `_parse_event_error_envelope`. -/
def eventError : OpenAIError :=
  ((payload.obj? "error").bind validateError).getD defaultError

/-- The words of a text in lower case, with one blank between them. The texts
that are looked for are ASCII, so only ASCII letters are lowered. -/
def normalizedMessage (s : String) : String :=
  String.ofList ([' '].intercalate
    (((s.toList.map Char.toLower).splitOnP PythonText.isSpace).filter (!·.isEmpty)))

/-- `_is_previous_response_not_found_public_error`. -/
def isPreviousResponseNotFound (e : OpenAIError) : Bool :=
  e.code = some "previous_response_not_found" ||
    (e.code = some "invalid_request_error" && e.param = some "previous_response_id" &&
      Text.includes (normalizedMessage (e.message.getD "")) "previous response" &&
      Text.includes (normalizedMessage (e.message.getD "")) "not found")

/-- `response_failed_event`. -/
def responseFailedEvent (code message type : String) (id param : Option String) : Object :=
  let error : Object := ⟨[("message",.str message),("type",.str type),("code",.str code)]⟩
  let error := match param.filter (· ≠ "") with
    | some p => error.set "param" (.str p)
    | none => error
  let response : Object := ⟨[("object",.str "response"),("status",.str "failed"),
    ("error",error.toJson),("incomplete_details",.null)]⟩
  let response := match id.filter (· ≠ "") with
    | some i => response.set "id" (.str i)
    | none => response
  ⟨[("type",.str "response.failed"),("response",response.toJson)]⟩

def violationEvent (kind : ViolationKind) (id : Option String) : Object :=
  responseFailedEvent kind.name kind.message "server_error" id none

def isVendorEvent : Bool :=
  (eventType payload).any (Text.startsWith · "codex.")

def normalizeError : Object :=
  if isPreviousResponseNotFound (eventError payload) then
    responseFailedEvent "stream_incomplete" "Upstream websocket closed before response.completed"
      "server_error" none none
  else payload

def normalizeFinished : Object × Option ViolationKind :=
  match payload.obj? "response" with
  | none => (violationEvent .invalidJson none,some .invalidJson)
  | some response =>
    match normalizeResponse response Dict.empty with
    | (none,kind) =>
      let kind := kind.getD .invalidOutputItem
      (violationEvent kind none,some kind)
    | (some normalized,kind) => (payload.set "response" normalized.toJson,kind)

def normalizeItemEvent : Option Object × Option ViolationKind :=
  match payload.obj? "item" with
  | none => (none,some .invalidOutputItem)
  | some item =>
    match normalizeOutputItem item with
    | none => (none,some .invalidOutputItem)
    | some normalized => (some (payload.set "item" normalized.toJson),
        if (item.text? "type").any (!isPassthroughType ·) then some .invalidOutputItem else none)

/-- `_normalize_public_stream_payload` with the contract enforced. -/
def normalizePayload : Option Object × Option ViolationKind :=
  if isVendorEvent payload then (none,none)
  else if isType payload ["error"] then (some (normalizeError payload),none)
  else if isFinished payload then
    let r := normalizeFinished payload
    (some r.1,r.2)
  else if isItemEvent payload then normalizeItemEvent payload
  else (some payload,none)

end CodexLb.Public
