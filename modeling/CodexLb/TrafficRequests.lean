import CodexLb.Dict

/-!
# Requests on an upstream websocket

The request states a bridge session keeps in `pending_requests`, the parts of an
upstream event the bridge reads, and the functions that guess which request an
event belongs to. They work on the pending requests in queue order, each with
its id, which stands for the identity of the request object.

An event carries the outcome of the tests made on its payload: whether it is a
`previous_response_not_found` or a missing-tool-output error, the previous
response ids its message mentions, whether its error code is one that allows a
replay, and whether it repeats a tool call. Service tiers, logs and usage are
left out.
-/
namespace CodexLb.Traffic

/-- The request of a submit, or the warm-up request it sends before its own. -/
inductive RequestId where
  | client (submit : ℕ)
  | warmup (submit : ℕ)
  deriving DecidableEq, Repr

/-- What `_http_bridge_input_item_type` tells apart. -/
inductive ItemType where
  | functionCallOutput | customToolCallOutput | reasoning | functionCall | customToolCall | message
  | other
  deriving DecidableEq, Repr

/-- An input item. `jsonSize` is the length of its serialisation. -/
structure Item where
  itemType : ItemType
  assistant : Bool
  outputMarker : Bool
  jsonSize : ℕ
  body : String
  deriving DecidableEq, Repr

/-- A `response.create` message; a payload before it is serialised. Its input is a
list: the request model has made a text a list of one item. -/
structure Message where
  previousResponseId : Option String
  input : List Item
  generate : Bool
  deriving DecidableEq, Repr

/-- `_WebSocketRequestState`. The last two fields are ghosts: the input the client
sent, and the items that were cut from its front. -/
structure Request (F : Type) where
  requestText : Message
  previousResponseId : Option String := none
  proxyInjectedPreviousResponseId : Bool := false
  freshUpstreamRequestText : Option Message := none
  freshUpstreamRequestIsRetrySafe : Bool := false
  preferredAccountId : Option String := none
  inputItemCount : ℕ := 0
  inputFullFingerprint : Option F := none
  responseId : Option String := none
  awaitingResponseCreated : Bool := false
  eventQueue : Bool := false
  replayCount : ℕ := 0
  responseEventCount : ℕ := 0
  responseCreateGateAcquired : Bool := false
  suppressedDuplicateToolCall : Bool := false
  downstreamVisible : Bool := false
  drainingUntilTerminal : Bool := false
  clientInput : List Item
  removed : List Item
  deriving DecidableEq, Repr

inductive EventType where
  | created | completed | failed | incomplete | error
  | textDelta
  | other (inResponse : Bool)
  deriving DecidableEq, Repr

def EventType.terminal : EventType → Bool
  | .completed | .failed | .incomplete | .error => true
  | _ => false

def EventType.counted : EventType → Bool
  | .created | .completed | .textDelta => true
  | .other inResponse => inResponse
  | _ => false

structure UpstreamEvent where
  type : EventType
  responseId : Option String
  previousResponseNotFound : Bool
  missingToolOutput : Bool
  previousResponseIdHint : Option String
  mentions : List String
  typelessError : Bool
  duplicateToolCall : Bool
  replayErrorCode : Bool
  deriving DecidableEq, Repr

section Matching
variable {F : Type} (ps : List (RequestId × Request F))

def Request.countsAgainstQueue (r : Request F) : Bool := !r.drainingUntilTerminal

def Request.unresolved (r : Request F) : Bool := r.responseId = none

def single {α : Type*} : List α → Option α
  | [a] => some a
  | _ => none

/-- `_find_websocket_request_state_by_response_id`. -/
def findByResponseId (responseId : String) : Option RequestId :=
  (ps.find? fun q => q.2.responseId = some responseId).map Prod.fst

/-- The request `_assign_websocket_response_id` gives the id to: visible requests
come before draining ones. -/
def assignResponseId : Option String → Option RequestId
  | none => none
  | some responseId =>
    findByResponseId ps responseId <|>
    (ps.find? fun q => q.2.unresolved && q.2.countsAgainstQueue).map Prod.fst <|>
    (ps.find? fun q => q.2.unresolved && q.2.drainingUntilTerminal).map Prod.fst <|>
    (ps.find? fun q => q.2.unresolved).map Prod.fst

/-- All follow-ups name one previous response. -/
def sameAnchor (qs : List (RequestId × Request F)) : Bool :=
  ((qs.filterMap fun q => q.2.previousResponseId).filter (· ≠ "")).dedup.length = 1

variable (ev : UpstreamEvent)

/-- `_matching_websocket_request_states_for_previous_response_error`. -/
def matchingForPreviousResponseError : List (RequestId × Request F) :=
  let followups := ps.filter fun q => q.2.previousResponseId ≠ none
  if followups.isEmpty then
    if ev.previousResponseNotFound && ps.length = 1 then ps else []
  else
    let hinted := match ev.previousResponseIdHint with
      | none => []
      | some hint => followups.filter fun q => q.2.previousResponseId = some hint
    let mentioned := followups.filter fun q => q.2.previousResponseId.any (· ∈ ev.mentions)
    let unresolved := followups.filter fun q => q.2.unresolved
    if !hinted.isEmpty then hinted
    else if !mentioned.isEmpty then mentioned
    else if unresolved.length = 1 then unresolved
    else if 1 < unresolved.length && sameAnchor unresolved then unresolved
    else []

/-- `_matching_websocket_request_states_for_missing_tool_output_error`. -/
def matchingForMissingToolOutput : List (RequestId × Request F) :=
  let unresolved := ps.filter fun q => q.2.unresolved && q.2.previousResponseId ≠ none
  if unresolved.length ≤ 1 then unresolved
  else if sameAnchor unresolved then unresolved
  else []

def prefersDraining : Bool :=
  ev.type ≠ .failed && ev.type ≠ .incomplete && ev.type ≠ .error

/-- `_match_websocket_request_state_for_anonymous_event`. -/
def matchAnonymousEvent : Option RequestId :=
  if ev.previousResponseNotFound || ev.missingToolOutput then
    (single (matchingForPreviousResponseError ps ev)).map Prod.fst
  else
    let visible := ps.filter fun q => q.2.countsAgainstQueue
    let draining := ps.filter fun q => q.2.drainingUntilTerminal
    let unresolvedDraining := single (draining.filter fun q => q.2.unresolved)
    let drained := if visible.isEmpty then draining.head? else none
    let preferred := if prefersDraining ev then unresolvedDraining <|> drained else none
    (preferred <|> single visible <|> single (visible.filter fun q => q.2.unresolved) <|>
      if visible.isEmpty then unresolvedDraining <|> drained else none).map Prod.fst

/-- `_match_websocket_request_state_for_precreated_terminal_event`. -/
def matchPrecreatedTerminal : Option RequestId :=
  (single (ps.filter fun q => q.2.unresolved && q.2.awaitingResponseCreated)).map Prod.fst

/-- The request `_pop_terminal_websocket_request_state` takes out of the queue. -/
def popTerminal (fallback : Option RequestId) : Option RequestId :=
  let kept := fallback.filter fun i => ps.any fun q => q.1 = i
  match ev.responseId with
  | none => kept <|> matchAnonymousEvent ps ev
  | some responseId =>
    findByResponseId ps responseId <|> kept <|> matchPrecreatedTerminal ps <|>
    if ev.previousResponseNotFound || ev.missingToolOutput then
      (single (matchingForPreviousResponseError ps ev)).map Prod.fst
    else none

def matchEvent : Option RequestId :=
  if ev.type = .created then assignResponseId ps ev.responseId
  else match ev.responseId with
    | some responseId => findByResponseId ps responseId
    | none => matchAnonymousEvent ps ev

end Matching

end CodexLb.Traffic
