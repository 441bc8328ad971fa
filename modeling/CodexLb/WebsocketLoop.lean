import CodexLb.WebsocketRequests

/-!
# One proxied websocket

`proxy_responses_websocket` with its upstream reader: the connection loop takes
client messages one at a time, connects, sends and replays; the reader matches
upstream events with the pending requests. A task rests at its awaits and a step
runs the code up to the next one. `pending_lock` is never held across another
await, so a locked section is part of a step.

Before a new request may be sent it takes the response-create gate, a semaphore
with one permit, and keeps it until its `response.created` or its end. A request
that failed before that may be handed back for a replay: it leaves the queue
with the gate still held, and the loop takes it up at the top of its next turn.

What comes from outside is part of the event: client messages, the prepared
request, owner lookups, admissions, connects and sends, upstream events and
closes, timeouts, crashes and the health penalty. The text of a request always
parses, so the two branches for a replayed text that does not are left out. So
are event counts, which the reader only advances on requests it has just popped,
and logs, reservations and the texts for the client.
-/
namespace CodexLb.WebsocketProxy
open Traffic

/-- The await the connection loop rests at. A request in its hand may be in the
queue already, as a replayed one is. -/
inductive Loop where
  | receiving
  | preparing (again : Bool)
  | waitingContinuity
  | joining (q : RequestId) (registered : Bool)
  | resolvingOwner (q : RequestId) (registered : Bool)
  | checking (q : RequestId) (registered : Bool)
  | waitingGate (q : RequestId)
  | admitting (q : RequestId)
  | connecting (q : RequestId)
  | sending (q : Option RequestId)
  | failing (queue : List RequestId)
  | answering
  | finished
  deriving DecidableEq, Repr

/-- Where the reader goes after its current awaits: it relays the event, or says
nothing, ends, ends with a reconnect requested, or reads on. -/
inductive Next where
  | relay (suppressed : Bool)
  | stop
  | reconnect
  | receive
  deriving DecidableEq, Repr

/-- The await the reader rests at. While it finalises or fails requests it has
taken out of the queue, `queue` are those it has not released yet. -/
inductive Reader where
  | receiving
  | busy (queue : List RequestId) (next : Next)
  | relaying
  | closing
  | done
  deriving DecidableEq, Repr

def Reader.hand : Reader → List RequestId
  | .busy queue _ => queue
  | _ => []

/-- `_WebSocketUpstreamControl`. -/
structure Control where
  reconnectRequested : Bool
  replayRequestState : Option RequestId
  deriving DecidableEq, Repr

/-- `upstream`, `upstream_control` and `upstream_reader`, which are set and
dropped together. -/
structure Upstream where
  control : Control
  reader : Reader
  deriving DecidableEq, Repr

structure Connection (F : Type) where
  book : Book F
  pending : List RequestId
  loop : Loop
  replayRequestState : Option RequestId
  upstream : Option Upstream

structure Setup (F : Type) where
  env : Env F
  codexSessionAffinity : Bool

def fullReplayWaitMinItems : ℕ := 20

/-- `_WEBSOCKET_TRANSPARENT_REPLAY_ERROR_CODES`, or the lost anchor. -/
inductive RetryCode where
  | transparent | notFound
  deriving DecidableEq, Repr

/-- `_websocket_precreated_retry_error_code`. -/
def precreatedRetryErrorCode {F : Type} (r : Request F) (ev : UpstreamEvent)
    (hasOtherPendingRequests : Bool) : Option RetryCode :=
  if hasOtherPendingRequests || !r.unresolved || 0 < r.responseEventCount ||
      !r.awaitingResponseCreated || 1 ≤ r.replayCount then none
  else if ev.type ≠ .error && ev.type ≠ .failed then none
  else if ev.previousResponseNotFound then some .notFound
  else if ev.missingToolOutput then none
  else if ev.replayErrorCode then some .transparent
  else none

/-- The request `_pop_terminal_websocket_request_state` takes out of the queue. -/
def popTerminalRequest {F : Type} (ps : List (RequestId × Request F)) (ev : UpstreamEvent)
    (fallback : Option RequestId) : Option RequestId :=
  let kept := fallback.filter fun i => ps.any fun q => q.1 = i
  match ev.responseId with
  | none => kept <|> matchAnonymousEvent ps ev
  | some responseId =>
    findByResponseId ps responseId <|> kept <|>
    (if ev.type = .completed then none else matchPrecreatedTerminal ps) <|>
    if ev.previousResponseNotFound || ev.missingToolOutput then
      (single (matchingForPreviousResponseError ps ev)).map Prod.fst
    else none

namespace Connection
variable {F : Type} (setup : Setup F) (s : Connection F)

def start : Connection F := ⟨Book.empty,[],.receiving,none,none⟩

def pendingStates : List (RequestId × Request F) :=
  s.pending.filterMap fun q => (s.book.table.get? q).map fun r => (q,r)

variable (q : RequestId)

def release : Connection F := {s with book := s.book.release q}

def requestReconnect : Connection F :=
  {s with upstream := s.upstream.map fun u =>
    {u with control := {u.control with reconnectRequested := true}}}

def read (r : Reader) : Connection F :=
  {s with upstream := s.upstream.map fun u => {u with reader := r}}

def dropUpstream : Connection F := {s with upstream := none}

/-- `upstream_control.replay_request_state`. -/
def parked : Option RequestId := s.upstream.bind (·.control.replayRequestState)

/-- The test of `_pop_replayable_precreated_websocket_request_state`. -/
def replayable : Option RequestId :=
  match s.pending with
  | [q] => match s.book.table.get? q with
    | some r => if r.unresolved && r.awaitingResponseCreated && r.replayCount = 0 &&
        r.responseEventCount = 0 then some q else none
    | none => none
  | _ => none

/-- A request that is sent once more; it awaits its response still. -/
def replayed (r : Request F) : Request F := {r with replayCount := r.replayCount+1,responseId := none}

def withoutAnchor (text : Message) (r : Request F) : Request F :=
  {r with
    requestText := text
    previousResponseId := none
    proxyInjectedPreviousResponseId := false
    freshUpstreamRequestIsRetrySafe := false}

def replayedFresh (r : Request F) : Request F :=
  match r.freshUpstreamRequestText with
  | some text =>
    if r.proxyInjectedPreviousResponseId && r.freshUpstreamRequestIsRetrySafe then
      replayed {withoutAnchor text r with
        inputItemCount := text.input.length
        inputFullFingerprint := some (setup.env.fingerprint text.input)}
    else replayed r
  | none => replayed r

theorem replayedFresh_flags (r : Request F) :
    (replayedFresh setup r).responseCreateGateAcquired = r.responseCreateGateAcquired ∧
      (replayedFresh setup r).awaitingResponseCreated = r.awaitingResponseCreated := by
  unfold replayedFresh
  split
  · split_ifs <;> exact ⟨rfl,rfl⟩
  · exact ⟨rfl,rfl⟩

/-- `_pop_replayable_precreated_websocket_request_state` on its request. -/
def popReplay : Connection F :=
  {s with
    pending := []
    book := s.book.update q (replayedFresh setup) (replayedFresh_flags setup)}

/-- `upstream_control.replay_request_state = request_state`. -/
def park : Connection F :=
  {s with upstream := s.upstream.map fun u => {u with control := ⟨true,some q⟩}}

def collect : Connection F :=
  {s.dropUpstream with replayRequestState := s.replayRequestState <|> s.parked}

/-- `if upstream_reader is not None and upstream_reader.done()`. -/
def reap : Connection F := if s.upstream.any (·.reader = .done) then s.collect else s

def connectOrSend (q : Option RequestId) : Connection F :=
  if s.upstream.isSome then {s with loop := .sending q}
  else match q with
    | none => {s with loop := .answering}
    | some q => {s with loop := .connecting q}

def lookUpOwner (registered : Bool) : Connection F :=
  if (s.book.table.get? q).any fun r => r.previousResponseId ≠ none && r.preferredAccountId = none then
    {s with loop := .resolvingOwner q registered}
  else {s with loop := .checking q registered}

def proceed (registered : Bool) : Connection F :=
  let s := s.reap
  if s.upstream.any (·.control.reconnectRequested) then {s with loop := .joining q registered}
  else s.lookUpOwner q registered

def top : Connection F :=
  let s := s.reap
  match s.replayRequestState with
  | some q => {s with replayRequestState := none,pending := s.pending++[q]}.proceed q true
  | none => {s with loop := .receiving}

/-- `_websocket_full_replay_should_wait_for_continuity`. -/
def waitsForContinuity (r : Request F) : Bool :=
  setup.codexSessionAffinity && r.previousResponseId = none &&
    fullReplayWaitMinItems ≤ r.inputItemCount && s.pending ≠ []

/-- `_websocket_full_resend_conflicts_with_visible_pending`. -/
def conflicts : Bool :=
  (s.book.table.get? q).any fun r => setup.codexSessionAffinity && r.previousResponseId = none &&
    fullReplayWaitMinItems ≤ r.inputItemCount &&
    s.pendingStates.any fun p => p.1 ≠ q && p.2.downstreamVisible

/-- The `finally` of the loop, and the release of a request it was admitting. -/
def finish : Connection F :=
  let admitting := match s.loop with
    | .admitting q => [q]
    | _ => []
  {s.dropUpstream with
    book := (admitting++s.replayRequestState.toList++s.pending).foldl Book.release s.book
    pending := []
    replayRequestState := none
    loop := .finished}

def afterMessage : Connection F :=
  if s.upstream.any fun u => u.control.reconnectRequested &&
      (u.control.replayRequestState.isSome || s.pending.isEmpty) then s.read .closing
  else s.read .receiving

/-- `_fail_pending_websocket_requests` on requests out of the queue, up to its
first await, which is the health penalty if there is one. -/
def fail (queue : List RequestId) (penalized : Bool) (next : Next) : Connection F :=
  match penalized,queue with
  | false,q::queue => (s.release q).read (.busy queue next)
  | _,queue => s.read (.busy queue next)

def failPending (penalized : Bool) (next : Next) : Connection F :=
  {s with pending := []}.fail s.pending penalized next

variable (ev : UpstreamEvent)

def unclaimed : Connection F :=
  if ev.previousResponseNotFound then s.requestReconnect.read .relaying
  else if ev.missingToolOutput then s.afterMessage
  else s.read .relaying

/-- `_finalize_websocket_request_state` up to its first await. -/
def finalize (q : RequestId) : Connection F := (s.release q).read (.busy [] (.relay false))

/-- The terminal event is replaced by one that asks for a new turn. -/
def rewritten (r : Request F) (ev : UpstreamEvent) : Bool :=
  (ev.type = .completed && r.suppressedDuplicateToolCall) ||
    (r.previousResponseId ≠ none && ev.missingToolOutput)

def parkAs (q : RequestId) (f : Request F → Request F)
    (hf : ∀ r, (f r).responseCreateGateAcquired = r.responseCreateGateAcquired ∧
      (f r).awaitingResponseCreated = r.awaitingResponseCreated) : Connection F :=
  {s.park q with book := s.book.update q f hf}

/-- What follows from the retry code. The owner of a lost anchor is penalised
before the request is finalised, a replayed request's account after the parking. -/
def retry (q : RequestId) (r : Request F) : Option RetryCode → Connection F
  | none => s.finalize q
  | some .transparent =>
    if r.previousResponseId ≠ none && r.preferredAccountId ≠ none then
      s.read (.busy [q] (.relay false))
    else (s.parkAs q replayed fun _ => ⟨rfl,rfl⟩).read (.busy [] (.relay true))
  | some .notFound =>
    match r.freshUpstreamRequestText with
    | some text =>
      if r.freshUpstreamRequestIsRetrySafe then
        (s.parkAs q (fun r => replayed (withoutAnchor text r)) fun _ => ⟨rfl,rfl⟩).afterMessage
      else s.finalize q
    | none => s.finalize q

def conclude (q : RequestId) (ev : UpstreamEvent) : Connection F :=
  match s.book.table.get? q with
  | none => s.finalize q
  | some r =>
    let code := precreatedRetryErrorCode r ev (s.pending ≠ [])
    if rewritten r ev then s.requestReconnect.finalize q
    else if ev.previousResponseNotFound && r.preferredAccountId.isSome then
      s.requestReconnect.retry q r code
    else s.retry q r code

def continuityGroup : List RequestId :=
  let found := if ev.previousResponseNotFound || ev.missingToolOutput then
    matchingForPreviousResponseError s.pendingStates ev else []
  (if found.isEmpty && ev.missingToolOutput then matchingForMissingToolOutput s.pendingStates
    else found).map Prod.fst

/-- The requests a terminal event without a request of its own is shared by. -/
def errorGroup : List RequestId :=
  let group := s.continuityGroup ev
  if ev.type = .error && ev.typelessError && group.isEmpty then s.pending else group

def receiveTerminal (matched : Option RequestId) : Connection F :=
  match popTerminalRequest s.pendingStates ev matched with
  | some q => {s with pending := s.pending.erase q}.conclude q ev
  | none =>
    let grouped := s.errorGroup ev
    let t := {s with pending := s.pending.filter (· ∉ grouped)}
    match grouped with
    | [] => t.unclaimed ev
    | [q] => t.conclude q ev
    | q::qs => (t.requestReconnect.release q).read (.busy qs (.relay false))

def marked (r : Request F) : Request F :=
  {r with
    responseId := if ev.type = .created then ev.responseId else r.responseId
    suppressedDuplicateToolCall := r.suppressedDuplicateToolCall || ev.duplicateToolCall
    downstreamVisible := r.downstreamVisible || (!ev.duplicateToolCall && ev.type = .textDelta)}

def mark : Option RequestId → Connection F
  | none => s
  | some q => {s with book := s.book.update q (marked ev) (fun _ => ⟨rfl,rfl⟩)}

def claimed (matched : Option RequestId) : Connection F :=
  if matched ≠ none && ev.duplicateToolCall then s.afterMessage
  else if ev.type.terminal && s.pending ≠ [] then s.receiveTerminal ev matched
  else match matched with
    | some q => if ev.type = .created then (s.release q).unclaimed ev else s.unclaimed ev
    | none => s.unclaimed ev

/-- `_process_upstream_websocket_text` up to its first await. -/
def process : Connection F :=
  let matched := matchEvent s.pendingStates ev
  (s.mark ev matched).claimed ev matched

def noteHealth (unhealthy : Bool) : Connection F := if unhealthy then s.requestReconnect else s

def resume (next : Next) : Connection F :=
  match next with
  | .relay true => s.afterMessage
  | .relay false => s.read .relaying
  | .stop => s.read .closing
  | .reconnect => s.requestReconnect.read .closing
  | .receive => s.read .receiving

end Connection

inductive LoopEvent (F : Type) where
  | poll
  | forward
  | create
  | prepared (q : RequestId) (r : Request F)
  | prepareFailed
  | continuityOver
  | joined
  | ownerResolved (account : Option String)
  | ownerFailed
  | checked
  | acquired
  | admitted
  | admissionFailed
  | connected
  | connectFailed
  | sent
  | sendFailed
  | failNext
  | answered
  | leave

inductive ReaderEvent where
  | received (ev : UpstreamEvent)
  | binary (relayed : Bool)
  | keepalive (relayed : Bool)
  | closed (penalized : Bool)
  | timedOut (penalized : Bool)
  | expired (requests : List RequestId)
  | crashed (penalized : Bool)
  | next (unhealthy : Bool)
  | relayed
  | relayFailed
  | ended
  deriving DecidableEq, Repr

inductive Event (F : Type) where
  | loop (e : LoopEvent F)
  | reader (e : ReaderEvent)

namespace Connection
variable {F : Type} (setup : Setup F) (s : Connection F)

def loopStep : Loop → LoopEvent F → Option (Connection F)
  | .finished,_ => none
  | _,.leave => some s.finish
  | .receiving,.poll => some s.top
  | .receiving,.forward => some (s.reap.connectOrSend none)
  | .receiving,.create => some {s with loop := .preparing false}
  | .preparing again,.prepared q r =>
    if hq : s.book.table.get? q = none then
      if !again && s.waitsForContinuity setup r then some {s with loop := .waitingContinuity}
      else some ({s with book := s.book.add q r hq}.proceed q false)
    else none
  | .preparing _,.prepareFailed => some {s with loop := .answering}
  | .waitingContinuity,.continuityOver => some {s with loop := .preparing true}
  | .joining q registered,.joined =>
    if s.upstream.any (·.reader = .done) then some (s.collect.lookUpOwner q registered) else none
  | .resolvingOwner q registered,.ownerResolved account =>
    some {s with
      book := s.book.update q (fun r => {r with preferredAccountId := account})
        (fun _ => ⟨rfl,rfl⟩)
      loop := .checking q registered}
  | .resolvingOwner q _,.ownerFailed => some {s.release q with loop := .answering}
  | .checking q registered,.checked =>
    if s.conflicts setup q then some {s.release q with loop := .answering}
    else if registered then some (s.connectOrSend (some q))
    else some {s with loop := .waitingGate q}
  | .waitingGate q,.acquired => (s.book.acquire q).map fun b => {s with book := b,loop := .admitting q}
  | .admitting q,.admitted => some ({s with pending := s.pending++[q]}.connectOrSend (some q))
  | .admitting q,.admissionFailed => some {s.release q with loop := .answering}
  | .connecting q,.connected =>
    some {s with upstream := some ⟨⟨false,none⟩,.receiving⟩,loop := .sending (some q)}
  | .connecting q,.connectFailed =>
    some {s.release q with pending := s.pending.erase q,loop := .answering}
  | .sending _,.sent => some s.top
  | .sending _,.sendFailed =>
    match s.replayable with
    | some q => some {(s.popReplay setup q).dropUpstream with replayRequestState := some q}.top
    | none => some {s with pending := [],loop := .failing s.pending}
  | .failing (q::queue),.failNext => some {s.release q with loop := .failing queue}
  | .failing [],.failNext => some s.dropUpstream.top
  | .answering,.answered => some s.top
  | _,_ => none

def clientLost : Connection F := s.failPending false .stop

def readerStep : Reader → ReaderEvent → Option (Connection F)
  | .receiving,.received ev => some (s.process ev)
  | .receiving,.binary true | .receiving,.keepalive true => some s
  | .receiving,.binary false | .receiving,.keepalive false => some s.clientLost
  | .receiving,.closed penalized =>
    match s.replayable with
    | some q => some (((s.popReplay setup q).park q).read .closing)
    | none => some (s.failPending penalized .stop)
  | .receiving,.timedOut penalized => some (s.failPending penalized .reconnect)
  | .receiving,.expired requests =>
    some ({s with pending := s.pending.filter (· ∉ requests)}.fail
      (s.pending.filter (· ∈ requests)) false .receive)
  | .busy (q::queue) next,.next unhealthy =>
    some (((s.noteHealth unhealthy).release q).read (.busy queue next))
  | .busy [] next,.next unhealthy => some ((s.noteHealth unhealthy).resume next)
  | .relaying,.relayed => some s.afterMessage
  | .relaying,.relayFailed => some s.clientLost
  | .closing,.ended => some (s.read .done)
  | .receiving,.crashed penalized | .busy _ _,.crashed penalized => some (s.failPending penalized .stop)
  | _,_ => none

def step : Event F → Option (Connection F)
  | .loop e => s.loopStep setup s.loop e
  | .reader e => s.upstream.bind fun u => s.readerStep setup u.reader e

end Connection

end CodexLb.WebsocketProxy
