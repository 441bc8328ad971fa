import CodexLb.BridgeLookup
import CodexLb.TrafficPrepare
import CodexLb.Runs

/-!
# Traffic on one bridge session

Submits, the upstream reader, client disconnects, retries and reconnects on one
`_HTTPBridgeSession` as a step function. A task rests at its awaits and a step
runs the code up to the next one. `pending_lock` is never held across an await,
so a locked section is part of a step. The response-create gate is a semaphore
with one permit.

What comes from outside is part of the event: upstream messages and closes, the
outcome of a send, the accounts a reconnect tries, and cancellations. A message
goes onto the wire at some moment during `send_text`, which may still return,
fail or be cancelled. Ghost state: every socket keeps what was written on it and
the ids of the responses created on it, and every put into an event queue is
recorded with the message whose response the event belongs to.
-/
namespace CodexLb.Traffic
open Bridge (ProxyError Raised)

structure Control where
  reconnectRequested : Bool
  retireAfterDrain : Bool
  deriving DecidableEq, Repr

structure Send where
  request : RequestId
  message : Message
  preferredAccountId : Option String
  removed : List Item
  deriving DecidableEq, Repr

structure Socket where
  accountId : String
  sent : List Send
  responses : List String
  deriving DecidableEq, Repr

/-- The message an upstream event answers: its socket and its place there. -/
structure Origin where
  socket : ℕ
  index : ℕ
  deriving DecidableEq, Repr

/-- A put into the event queue of a request; `none` is an event built locally. -/
structure Delivery where
  request : RequestId
  origin : Option Origin
  deriving DecidableEq, Repr

/-- A completed response: its id, the account and the input the client sent. -/
structure Completion where
  responseId : String
  accountId : String
  clientInput : List Item
  deriving DecidableEq, Repr

inductive SendStage where
  | waitingGate
  | admitting
  | sending (socket : ℕ) (written : Bool)
  deriving DecidableEq, Repr

inductive SubmitPhase where
  | recovering
  | checked
  | warming (stage : SendStage)
  | listening
  | entering
  | sending (stage : SendStage)
  | retrying (message : Message)
  | resending (socket : ℕ) (message : Message) (written : Bool)
  | registering
  | submitted
  | finished
  | raised (exc : Raised)
  deriving DecidableEq, Repr

inductive Follow where
  | deliver | group | retry
  deriving DecidableEq, Repr

structure Handling where
  event : UpstreamEvent
  origin : Option Origin
  matched : Option RequestId
  terminal : Option RequestId
  grouped : List RequestId
  follow : Follow
  deriving DecidableEq, Repr

/-- The request the event is about: `terminal_request_state or matched_request_state`. -/
def Handling.status (h : Handling) : Option RequestId := h.terminal.orElse fun _ => h.matched

/-- The await the upstream reader rests at. The handling is there when the retry
was started by an error event. -/
inductive Reader where
  | receiving
  | handling (h : Handling)
  | reconnecting (q : RequestId) (h : Option Handling)
  | resending (q : RequestId) (socket : ℕ) (written : Bool) (h : Option Handling)
  | stopped
  deriving DecidableEq, Repr

structure Session (F : Type) where
  accountId : String
  sockets : List Socket
  control : Control
  requests : Dict RequestId (Request F)
  pending : List RequestId
  gate : ℕ
  queuedRequestCount : ℕ
  codexSession : Bool
  prewarmed : Bool
  anchor : Anchor F
  closed : Bool
  lastUpstreamCloseCode : Option ℕ
  reader : Reader
  submits : Dict ℕ SubmitPhase
  deliveries : List Delivery
  completions : List Completion

/-- One pass of the account loop of a reconnect: the account that was selected,
what came of it, and whether budget is left. -/
inductive ConnectOutcome where
  | opened
  | refreshFailed (permanent : Bool)
  | connectFailed
  deriving DecidableEq, Repr

structure ConnectAttempt where
  account : Option String
  outcome : ConnectOutcome
  budgetLeft : Bool
  deriving DecidableEq, Repr

/-- The account loop of `_reconnect_http_bridge_session`; `none` is an exception. -/
def connectLoop (current : String) : Bool → List String → List ConnectAttempt → Option String
  | _,_,[] => none
  | retrySame,excluded,a::as =>
    match a.account with
    | none => none
    | some account =>
      if account ∈ excluded then none
      else match a.outcome with
        | .opened => some account
        | .refreshFailed permanent =>
          if account = current && a.budgetLeft then
            if retrySame && !permanent then connectLoop current false excluded as
            else connectLoop current retrySame (account::excluded) as
          else none
        | .connectFailed =>
          if account = current && a.budgetLeft then
            if retrySame then connectLoop current false excluded as
            else connectLoop current retrySame (account::excluded) as
          else none

def hasEventsError : ProxyError :=
  ⟨502,"upstream_unavailable",
    "HTTP responses session bridge request already has upstream response events"⟩

def closedError : ProxyError := ⟨502,"upstream_unavailable","HTTP responses session bridge is closed"⟩

def retiringError : ProxyError :=
  ⟨502,"upstream_unavailable","HTTP responses session bridge is retiring"⟩

def queueFullError : ProxyError :=
  ⟨429,"rate_limit_exceeded","HTTP responses session bridge queue is full"⟩

def prewarmError : ProxyError :=
  ⟨502,"upstream_unavailable","HTTP responses session bridge prewarm failed"⟩

def sendError : ProxyError := ⟨502,"upstream_unavailable","Upstream websocket closed"⟩

section Operations
variable {F : Type}

namespace Session

def start (accountId : String) (codexSession : Bool) : Session F where
  accountId := accountId
  sockets := [⟨accountId,[],[]⟩]
  control := ⟨false,false⟩
  requests := Dict.empty
  pending := []
  gate := 1
  queuedRequestCount := 0
  codexSession := codexSession
  prewarmed := false
  anchor := .empty
  closed := false
  lastUpstreamCloseCode := none
  reader := .receiving
  submits := Dict.empty
  deliveries := []
  completions := []

variable (s : Session F)

/-- `session.upstream`. -/
def upstream : ℕ := s.sockets.length-1

def modify (q : RequestId) (f : Request F → Request F) : Session F :=
  match s.requests.get? q with
  | some r => {s with requests := s.requests.set q (f r)}
  | none => s

def pendingStates : List (RequestId × Request F) :=
  s.pending.filterMap fun q => (s.requests.get? q).map fun r => (q,r)

def phase (i : ℕ) (p : SubmitPhase) : Session F :=
  {s with submits := s.submits.set i p}

/-- `_release_websocket_response_create_gate`. -/
def releaseGate (q : RequestId) : Session F :=
  match s.requests.get? q with
  | none => s
  | some r => {s with
      requests := s.requests.set q
        {r with awaitingResponseCreated := false,responseCreateGateAcquired := false}
      gate := if r.responseCreateGateAcquired then s.gate+1 else s.gate}

def put (q : RequestId) (origin : Option Origin) : Session F :=
  match s.requests.get? q with
  | some r => if r.eventQueue then {s with deliveries := s.deliveries++[⟨q,origin⟩]} else s
  | none => s

def countVisible (qs : List RequestId) : ℕ :=
  (qs.filter fun q => (s.requests.get? q).any (·.countsAgainstQueue)).length

/-- `_cleanup_http_bridge_submit_interruption`. -/
def cleanup (q : RequestId) (gateAcquired enqueued : Bool) : Session F :=
  let s := {s with
    pending := if enqueued then s.pending.erase q else s.pending
    queuedRequestCount := s.queuedRequestCount-1}
  if gateAcquired then s.releaseGate q else s

/-- `_fail_pending_websocket_requests`: every pending request gets a failure. -/
def failPending : Session F :=
  s.pending.foldl (fun t q => (t.releaseGate q).put q none) {s with pending := []}

/-- The test of `_retire_http_bridge_after_drain_if_ready`. -/
def retires : Bool :=
  s.control.reconnectRequested && s.control.retireAfterDrain &&
    s.countVisible s.pending = 0 && s.queuedRequestCount = 0

def retireIfReady : Session F :=
  if s.retires then {s with pending := [],closed := true} else s

/-- The end of `_reconnect_http_bridge_session`. -/
def reconnected (accountId : String) : Session F :=
  {s with
    accountId := accountId
    sockets := s.sockets++[⟨accountId,[],[]⟩]
    control := ⟨false,false⟩
    closed := false
    lastUpstreamCloseCode := none}

def connect (attempts : List ConnectAttempt) : Option String :=
  connectLoop s.accountId (s.lastUpstreamCloseCode ≠ some 1011) [] attempts

def write (socket : ℕ) (q : RequestId) (message : Message) : Session F :=
  match s.requests.get? q with
  | none => s
  | some r => {s with sockets := s.sockets.modify socket fun k =>
    {k with sent := k.sent++[⟨q,message,r.preferredAccountId,r.removed⟩]}}

theorem submits_write (u : ℕ) (q : RequestId) (m : Message) :
    (s.write u q m).submits = s.submits := by
  unfold write
  split <;> rfl

theorem reader_write (u : ℕ) (q : RequestId) (m : Message) : (s.write u q m).reader = s.reader := by
  unfold write
  split <;> rfl

/-- The client goes away: `_detach_http_bridge_request`. -/
def detach (q : RequestId) : Session F :=
  match s.requests.get? q with
  | none => s
  | some r =>
    if q ∈ s.pending && !r.drainingUntilTerminal then
      let t := {s with
        requests := s.requests.set q
          {r with drainingUntilTerminal := true,downstreamVisible := false,eventQueue := false}
        queuedRequestCount := s.queuedRequestCount-1
        control := ⟨true,true⟩}
      t.releaseGate q
    else {s with requests := s.requests.set q {r with eventQueue := false}}

/-- The request that `_retry_http_bridge_precreated_request` sends again. -/
def precreatedRetry : Option RequestId :=
  match single (s.pendingStates.filter fun q =>
      !q.2.drainingUntilTerminal && q.2.unresolved && q.2.awaitingResponseCreated) with
  | none => none
  | some (q,r) =>
    if r.previousResponseId = none && r.replayCount = 0 && r.responseEventCount = 0 &&
        !r.downstreamVisible && s.lastUpstreamCloseCode ≠ some 1000 then some q
    else none

end Session

/-! The tests of `_retry_http_bridge_request_on_fresh_upstream`. -/

def retryText (r : Request F) (message : Message) : Option Message :=
  match r.previousResponseId with
  | none => some message
  | some _ =>
    if r.proxyInjectedPreviousResponseId && r.freshUpstreamRequestIsRetrySafe then
      r.freshUpstreamRequestText
    else none

def mayReplay (r : Request F) : Bool := r.replayCount = 0 && r.responseEventCount = 0

end Operations

end CodexLb.Traffic
