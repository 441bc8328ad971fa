import CodexLb.PublicReplay

/-!
# The public Responses stream

`_normalize_public_responses_stream` of `app/modules/proxy/api.py` with the
OpenAI contract enforced, as a machine that reads one block at a time. Before
the response was created events are held back, and a created event is made up
from the first event that carries a response.

A block is given by what it is: the end marker, a comment, data that is no JSON
object, anything else without data, or the object it holds.
-/
namespace CodexLb.Public
open Json

inductive Block where
  | done
  | comment (text : String)
  | invalid
  | other
  | payload (o : Object)

inductive Out where
  | block (b : Block)
  | event (o : Object)

structure StreamState where
  terminalSeen : Bool
  doneSeen : Bool
  violation : Option ViolationKind
  seen : List TextKey
  outputItems : OutputItems
  createdEmitted : Bool
  buffer : List Object

def StreamState.start : StreamState := ⟨false,false,none,[],Dict.empty,false,[]⟩

/-- How the stream goes on: with a state, not at all, or with an exception. -/
inductive Next where
  | continue (st : StreamState)
  | stop
  | raise

abbrev Relay := List Out × Next

def bufferLimit : ℕ := 64

/-- `_synthetic_response_created_envelope`. -/
def syntheticCreated (payload : Object) : Option Object :=
  (payload.obj? "response").map fun response =>
    let created := (response.set "status" (.str "in_progress")).set "output" (.arr [])
    let synthetic : Object := ⟨[("type",.str "response.created"),("response",created.toJson)]⟩
    match payload.get? "sequence_number" with
    | some v => if v.isInt.isSome then synthetic.set "sequence_number" v else synthetic
    | none => synthetic

/-- A failed response, with a created event before it if there was none. -/
def failedBlocks (failed : Object) (includeCreated : Bool) : List Object :=
  (if includeCreated then (syntheticCreated failed).toList else [])++[failed]

/-- `_public_response_failed_event_blocks`. -/
def violationBlocks (kind : ViolationKind) (includeCreated : Bool) : List Object :=
  failedBlocks (violationEvent kind (some ("resp_"++kind.name))) includeCreated

def orText (s : Option String) (fallback : String) : String := (s.filter (· ≠ "")).getD fallback

/-- `_public_response_failed_event_blocks_from_error`. -/
def errorBlocks (payload : Object) (includeCreated : Bool) : List Object :=
  let e := eventError payload
  let code := orText e.code "upstream_error"
  failedBlocks (responseFailedEvent code (orText e.message "Upstream error")
    (orText e.type "server_error") (some ("resp_"++code)) e.param) includeCreated

/-- `_should_buffer_public_pre_created_event`. -/
def shouldBuffer (t : String) : Bool :=
  Text.startsWith t "response." && t ≠ "response.created" &&
    t ∉ ["response.completed","response.incomplete","response.failed","error"]

namespace StreamState
variable (st : StreamState)

def errorKind : ViolationKind := st.violation.getD .upstreamStreamTruncated

def noteViolation (kind : Option ViolationKind) : StreamState :=
  {st with violation := st.violation <|> kind}

/-- The response of a terminal event gets the items that were streamed. -/
def backfill (payload : Object) : Object :=
  if isFinished payload then
    match payload.obj? "response" with
    | some response =>
      if !ownOutput response && !st.outputItems.rows.isEmpty then
        payload.set "response" (mergeOutputItems response st.outputItems).toJson
      else payload
    | none => payload
  else payload

def seenWith (payload : Object) : List TextKey :=
  if isType payload ["response.output_text.delta"] then textDeltaKey payload::st.seen else st.seen

/-- Pass on an event, after the deltas it makes up for. -/
def passOn (payload : Object) : Relay :=
  match syntheticTextDeltas payload (st.seenWith payload) with
  | none => ([],.raise)
  | some (deltas,seen) => ((deltas++[payload]).map .event,.continue {st with
      outputItems := collectOutputItem payload st.outputItems
      seen := seen
      terminalSeen := st.terminalSeen || isTerminal payload})

def emitCreated (created : Object) : Relay :=
  match replayBuffer st.buffer (eventResponseId created) st.seen with
  | none => ([.event created],.raise)
  | some (replayed,seen) => (.event created::replayed.map .event,.continue {st with
      createdEmitted := true
      buffer := []
      seen := seen})

/-- An event with a text for its type before the response was created. -/
def beforeCreated (t : String) (payload : Object) : Relay :=
  if t = "response.created" then st.emitCreated payload
  else
    match syntheticCreated payload with
    | some created =>
      match st.emitCreated created with
      | (out,.continue st) =>
        let r := st.passOn payload
        (out++r.1,r.2)
      | r => r
    | none =>
      if shouldBuffer t then
        if bufferLimit ≤ st.buffer.length then
          ((violationBlocks st.errorKind true).map .event,.stop)
        else ([],.continue {st with buffer := st.buffer++[payload]})
      else if isTerminal payload then
        (((if t = "error" then errorBlocks payload true
          else violationBlocks st.errorKind true).map .event),.stop)
      else st.passOn payload

def relayPayload (payload : Object) : Relay :=
  let r := normalizePayload (st.backfill payload)
  let st := st.noteViolation r.2
  match r.1 with
  | none => ([],.continue st)
  | some normalized =>
    match st.createdEmitted,eventType normalized with
    | false,some t => st.beforeCreated t normalized
    | _,_ => st.passOn normalized

def relay : Block → Relay
  | .done => (if st.terminalSeen then [.block .done] else [],.continue {st with doneSeen := true})
  | .comment text => ([.block (.comment text)],.continue st)
  | .invalid => ([],.continue (st.noteViolation (some .invalidJson)))
  | .other => ([],.continue st)
  | .payload o => st.relayPayload o

def finish : List Out :=
  if st.terminalSeen then []
  else (violationBlocks st.errorKind (!st.createdEmitted)).map .event

end StreamState

/-- `_normalize_public_responses_stream` from a state on. -/
def streamFrom : StreamState → List Block → List Out
  | st,[] => st.finish
  | st,b::bs =>
    match st.relay b with
    | (out,.continue st) => out++streamFrom st bs
    | (out,.stop) => out
    | (out,.raise) => out

def publicStream (blocks : List Block) : List Out := streamFrom .start blocks

def stateAfter : StreamState → List Block → Option StreamState
  | st,[] => some st
  | st,b::bs =>
    match (st.relay b).2 with
    | .continue st => stateAfter st bs
    | _ => none

def Out.event? : Out → Option Object
  | .event o => some o
  | .block _ => none

def events (out : List Out) : List Object := out.filterMap Out.event?

end CodexLb.Public
