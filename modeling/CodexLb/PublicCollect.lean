import CodexLb.PublicStream

/-!
# The collected response

`_collect_responses_payload` of `app/modules/proxy/api.py`: the same blocks as
the public stream, read to one response. The items are collected as they come
and normalised at the end.

A response that was read is given by its rows; its error and its usage are not
looked into.
-/
namespace CodexLb.Public
open Json

inductive Collected where
  | response (o : Object)
  | error (e : OpenAIError)

structure CollectState where
  outputItems : OutputItems
  terminal : Option Collected
  violation : Option ViolationKind

def CollectState.start : CollectState := ⟨Dict.empty,none,none⟩

/-- `_public_contract_error_envelope`. -/
def contractError (kind : ViolationKind) : Collected :=
  .error ⟨some kind.message,some "server_error",some kind.name,none⟩

/-- `parse_response_payload`: the id and the status are texts if they are there. -/
def parseResponse (o : Object) : Option Object := do
  let _ ← strictStr o "id"
  let _ ← strictStr o "status"
  return o

/-- The error of a `response.failed`. -/
def failedError (payload : Object) : OpenAIError :=
  (((payload.obj? "response").bind (·.obj? "error")).bind validateError).getD defaultError

namespace CollectState
variable (st : CollectState)

def noteViolation (kind : Option ViolationKind) : CollectState :=
  {st with violation := st.violation <|> kind}

/-- A `response.completed` or `response.incomplete`. -/
def finishWith (payload : Object) : CollectState :=
  match payload.obj? "response" with
  | none => {st with terminal := some (contractError (st.violation.getD .invalidJson))}
  | some response =>
    let r := normalizeResponse response st.outputItems
    let st := st.noteViolation r.2
    match r.1.bind parseResponse with
    | some parsed => {st with terminal := some (.response parsed)}
    | none => {st with terminal := some (contractError (st.violation.getD .invalidJson))}

def addPayload (payload : Object) : CollectState :=
  let st := {st with outputItems := collectOutputItem payload st.outputItems}
  if st.terminal.isSome then st
  else if isType payload ["error"] then {st with terminal := some (.error (eventError payload))}
  else if isType payload ["response.failed"] then
    {st with terminal := some (.error (failedError payload))}
  else if isFinished payload then st.finishWith payload
  else st

def add : Block → CollectState
  | .payload o => if o.rows.isEmpty then st.noteViolation (some .invalidJson) else st.addPayload o
  | .invalid | .done => st.noteViolation (some .invalidJson)
  | .comment text => if Text.includes text "data:" then st.noteViolation (some .invalidJson) else st
  | .other => st

def result : Collected :=
  st.terminal.getD (contractError (st.violation.getD .upstreamStreamTruncated))

end CollectState

def collectResponses (blocks : List Block) : Collected :=
  (blocks.foldl CollectState.add .start).result

end CodexLb.Public
