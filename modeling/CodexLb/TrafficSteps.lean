import CodexLb.TrafficSession

/-!
# The steps of a bridge session

The tasks of `TrafficSession` as functions of the state: the submit from its
entry to the send, `_process_http_bridge_upstream_text` in the part up to its
first await and the part after it, the reader's retries, and the two ways a
client leaves.

The reconnect of a submit is one step, from the cancellation of the old reader to
the start of the new one, so the runs are those in which no two of them overlap.
Two that do leave a reader of the socket that the later one replaces; what holds
along a run here is not said of them.

Left out is the `reconnect_requested` flag that the finalisation of a failed
request may set: it is read only together with `retire_after_drain` and is set
wherever that one is.
-/
namespace CodexLb.Traffic
open Bridge (ProxyError Raised)

inductive Admission where
  | granted | overloaded | failed
  deriving DecidableEq, Repr

inductive Event (F : Type) where
  | arrive (i : ℕ) (c : ClientRequest F)
  | rearrive (i : ℕ) (payload : Message) (client : List Item) (removed : List Item)
      (preferredAccountId : Option String)
  | recover (i : ℕ) (attempts : List ConnectAttempt)
  | prewarm (i : ℕ)
  | enter (i : ℕ) (queueLimit : ℕ)
  | acquire (i : ℕ)
  | admission (i : ℕ) (answer : Admission)
  | write (i : ℕ)
  | sent (i : ℕ)
  | sendFailed (i : ℕ)
  | warmed (i : ℕ) (ok : Bool)
  | retry (i : ℕ) (attempts : List ConnectAttempt)
  | registered (i : ℕ)
  | cancel (i : ℕ)
  | detach (i : ℕ)
  | retire
  | receive (ev : UpstreamEvent) (origin : Option Origin)
  | handled
  | disconnected (code : Option ℕ)
  | timedOut
  | crashed
  | reconnect (attempts : List ConnectAttempt)
  | readerWrite
  | readerSent
  | readerSendFailed
  | failPending
  | close

section Steps
variable {F : Type} (env : Env F)

namespace Session
variable (s : Session F)

def checkRetire (i : ℕ) : Session F :=
  if s.control.retireAfterDrain then s.retireIfReady.phase i (.raised (.proxy retiringError))
  else s.phase i .checked

def stopReader : Session F := {s with reader := .stopped,closed := true}

variable (q : RequestId)

def countReplay : Session F :=
  s.modify q fun r => {r with replayCount := r.replayCount+1}

/-- The entry of `_submit_http_bridge_request`. -/
def submitEntry (i : ℕ) (r : Request F) : Session F :=
  if r.responseId ≠ none || 0 < r.responseEventCount then
    s.phase i (.raised (.proxy hasEventsError))
  else if s.closed then
    if mayReplay r then ((s.countReplay (.client i)).stopReader).phase i .recovering
    else s.phase i (.raised (.proxy closedError))
  else s.checkRetire i

/-- The end of the reconnect a submit has asked for, with a new reader. -/
def restarted (accountId : String) : Session F := {s.reconnected accountId with reader := .receiving}

def warmupRequest (message : Message) : Request F :=
  {prepareRequest env message message.input [] with inputItemCount := 0,inputFullFingerprint := none}

/-- Some submit holds `prewarm_lock`. -/
def prewarmLocked : Bool :=
  s.submits.rows.any fun q => match q.2 with
    | .warming _ | .listening => true
    | _ => false

/-- `_maybe_prewarm_http_bridge_session` up to the gate. -/
def startPrewarm (i : ℕ) (r : Request F) : Option (Session F) :=
  if !s.codexSession || s.prewarmed || r.previousResponseId ≠ none || !env.prewarmEnabled then
    some (s.phase i .entering)
  else if s.prewarmLocked || (s.requests.get? (.warmup i)).isSome then none
  else if !r.requestText.generate then some ({s with prewarmed := true}.phase i .entering)
  else
    let message := {r.requestText with generate := false}
    some ({s with
      prewarmed := true
      requests := s.requests.set (.warmup i) (warmupRequest env message)}.phase i
        (.warming .waitingGate))

def enterQueue (i queueLimit : ℕ) : Session F :=
  if queueLimit ≤ s.queuedRequestCount then s.phase i (.raised (.proxy queueFullError))
  else {s with queuedRequestCount := s.queuedRequestCount+1}.phase i (.sending .waitingGate)

def acquireGate : Option (Session F) :=
  if s.gate = 0 then none
  else some ({s with gate := s.gate-1}.modify q fun r =>
    {r with responseCreateGateAcquired := true,awaitingResponseCreated := true})

def enqueue : Session F := {s with pending := s.pending++[q]}

def failSend (i : ℕ) : Session F :=
  {((s.cleanup (.client i) true true).put (.client i) none) with closed := true}.phase i
    (.raised (.proxy sendError))

def sendFailed (i : ℕ) (r : Request F) : Session F :=
  match retryText r r.requestText with
  | some message =>
    if mayReplay r then ((s.countReplay (.client i)).stopReader).phase i (.retrying message)
    else s.failSend i
  | none => s.failSend i

/-- The request that is sent again without the anchor the proxy had injected. -/
def dropAnchor (message : Message) : Session F :=
  s.modify q fun r =>
    if message = r.requestText then r
    else {r with
      previousResponseId := none
      proxyInjectedPreviousResponseId := false
      requestText := message}

def endWarmup (gateAcquired enqueued : Bool) : Session F :=
  {s.cleanup q gateAcquired enqueued with prewarmed := false}

def interrupt : SendStage → Session F
  | .waitingGate => s.cleanup q false false
  | .admitting => (s.releaseGate q).cleanup q false false
  | .sending _ _ => s.cleanup q true true

def afterMessage : Session F :=
  if s.retires then {s.retireIfReady with reader := .stopped} else {s with reader := .receiving}

def failQueue : Session F := {s with queuedRequestCount := 0}.failPending

def failAll : Session F := s.failQueue.stopReader

variable (ev : UpstreamEvent)

def popTerminalState (matched : Option RequestId) :
    Session F × Option RequestId × Option RequestId :=
  match popTerminal s.pendingStates ev matched with
  | none => (s,matched,none)
  | some q =>
    let s := {s with pending := s.pending.erase q}
    match matched,ev.responseId,s.requests.get? q with
    | none,some responseId,some r =>
      if ev.type = .completed && r.unresolved then
        (s.modify q fun r => {r with responseId := some responseId},some q,some q)
      else if r.responseId = some responseId then (s,some q,some q)
      else (s,none,some q)
    | _,_,_ => (s,matched,some q)

def takeGroup (qs : List RequestId) : Session F :=
  {s with
    pending := s.pending.filter (· ∉ qs)
    queuedRequestCount := s.queuedRequestCount-s.countVisible qs}

def continuityGroup : List RequestId :=
  let found := matchingForPreviousResponseError s.pendingStates ev
  let found := if found.isEmpty && ev.missingToolOutput then
    matchingForMissingToolOutput s.pendingStates else found
  found.map Prod.fst

/-- The requests an error is shared by: those of a continuity error, or all when
no request claims it. -/
def errorGroup (terminal : Option RequestId) : List RequestId :=
  let counted := terminal.any fun q => (s.requests.get? q).any (·.countsAgainstQueue)
  let continuity := !counted && (ev.previousResponseNotFound || ev.missingToolOutput)
  let group := if continuity then s.continuityGroup ev else []
  if terminal = none && ev.type = .error && ev.typelessError && group.isEmpty then s.pending
  else group

def countTerminal (terminal : Option RequestId) : Session F :=
  if terminal.any fun q => (s.requests.get? q).any (·.countsAgainstQueue) then
    {s with queuedRequestCount := s.queuedRequestCount-1}
  else s

/-- `_record_response_event`. -/
def recordEvent (q : Option RequestId) (ev : UpstreamEvent) : Session F :=
  match q with
  | some q =>
    if ev.type.counted then
      s.modify q fun r => {r with responseEventCount := r.responseEventCount+1}
    else s
  | none => s

def requestReconnect (retire : Bool) : Session F :=
  {s with control := ⟨true,s.control.retireAfterDrain || retire⟩}

def completedAnchor (r : Request F) : Anchor F :=
  {lastCompletedResponseId := ev.responseId.orElse fun _ => s.anchor.lastCompletedResponseId
   lastCompletedInputCount := if 0 < r.inputItemCount then r.inputItemCount
     else s.anchor.lastCompletedInputCount
   lastCompletedInputPrefixFingerprint := if 0 < r.inputItemCount then r.inputFullFingerprint
     else s.anchor.lastCompletedInputPrefixFingerprint}

/-- The message an event answers. -/
def sendOf (o : Origin) : Option Send := (s.sockets[o.socket]?).bind fun k => k.sent[o.index]?

variable (origin : Option Origin)

def completion : List Completion :=
  match ev.responseId,(origin.bind s.sendOf).bind fun m => s.requests.get? m.request with
  | some responseId,some r => [⟨responseId,s.accountId,r.clientInput⟩]
  | _,_ => []

def complete (terminal : Option RequestId) : Session F :=
  match terminal.bind s.requests.get? with
  | none => s
  | some r =>
    if ev.type = .completed then {s with
      anchor := s.completedAnchor ev r
      completions := s.completions++s.completion ev origin}
    else s

/-- The error is of the kind that is answered by sending the request again. -/
def replayable (r : Request F) (ev : UpstreamEvent) : Bool :=
  r.unresolved && r.awaitingResponseCreated && (ev.type = .error || ev.type = .failed) &&
    ev.replayErrorCode

/-- `_websocket_precreated_retry_error_code` is set. -/
def retryable (r : Request F) (ev : UpstreamEvent) : Bool :=
  s.pending.isEmpty && r.responseEventCount = 0 && r.replayCount = 0 && replayable r ev &&
    r.previousResponseId = none

def followUp (status : Option RequestId) : Session F × Follow :=
  match status.bind s.requests.get? with
  | none => (s,.deliver)
  | some r =>
    if ev.missingToolOutput && r.previousResponseId ≠ none then (s.requestReconnect false,.deliver)
    else if ev.previousResponseNotFound then
      (if r.preferredAccountId ≠ none then s.requestReconnect false else s,.deliver)
    else if r.previousResponseId ≠ none && r.preferredAccountId ≠ none && replayable r ev then
      (s.requestReconnect true,.deliver)
    else if s.retryable r ev then (s,.retry)
    else (s,.deliver)

def suppressed (terminal : Option RequestId) : Bool :=
  ev.type = .completed &&
    terminal.any fun q => (s.requests.get? q).any (·.suppressedDuplicateToolCall)

variable (matched terminal : Option RequestId)

def recordBoth : Session F :=
  if matched = terminal then s.recordEvent matched ev
  else (s.recordEvent matched ev).recordEvent terminal ev

/-- The event of a known request, up to the next await. -/
def dispatch : Session F :=
  let status := terminal.orElse fun _ => matched
  if status = none && ev.previousResponseNotFound then (s.requestReconnect false).afterMessage
  else if s.suppressed ev terminal then
    {s.requestReconnect false with
      closed := true
      reader := .handling ⟨ev,none,matched,terminal,[],.deliver⟩}
  else
    let f := s.followUp ev status
    {f.1.complete ev origin terminal with
      reader := .handling ⟨ev,origin,matched,terminal,[],f.2⟩}

/-- `_process_http_bridge_upstream_text` from the matching to the next await. -/
def conclude (grouped : List RequestId) : Session F :=
  if 1 < grouped.length then
    {s.requestReconnect false with
      reader := .handling ⟨ev,origin,matched,terminal,grouped,.group⟩}
  else
    let terminal := terminal.orElse fun _ => grouped.head?
    (s.recordBoth ev matched terminal).dispatch ev origin matched terminal

/-- The sockets after an event: a created response is the next one of its socket. -/
def noteResponse : Option Origin → List Socket
  | none => s.sockets
  | some o =>
    match ev.type,ev.responseId with
    | .created,some responseId => s.sockets.modify o.socket fun k =>
      {k with responses := k.responses++[responseId]}
    | _,_ => s.sockets

def observe : Session F :=
  {s with sockets := s.noteResponse ev origin,lastUpstreamCloseCode := none}

/-- A terminal event: the queue is looked through again. -/
def receiveTerminal (matched : Option RequestId) : Session F :=
  let p := s.popTerminalState ev matched
  let grouped := p.1.errorGroup ev p.2.2
  ((p.1.countTerminal p.2.2).takeGroup grouped).conclude ev origin p.2.1 p.2.2 grouped

def mark : Option RequestId → Session F
  | none => s
  | some q => s.modify q fun r => {r with
      responseId := if ev.type = .created then ev.responseId else r.responseId
      suppressedDuplicateToolCall := r.suppressedDuplicateToolCall || ev.duplicateToolCall
      downstreamVisible := r.downstreamVisible || (!ev.duplicateToolCall && ev.type = .textDelta)}

def process (matched : Option RequestId) : Session F :=
  if matched ≠ none && ev.duplicateToolCall then s.afterMessage
  else if ev.type.terminal then s.receiveTerminal ev origin matched
  else s.conclude ev origin matched none []

/-- An upstream event: the section under `pending_lock` and what follows it. -/
def receive : Session F :=
  let matched := matchEvent s.pendingStates ev
  ((s.observe ev origin).mark ev matched).process ev origin matched

def openGate (h : Handling) : Session F :=
  match h.event.type,h.matched with
  | .created,some q => s.releaseGate q
  | _,_ => s

def putTo : Option RequestId → Session F
  | some q => s.put q origin
  | none => s

def putEvent (h : Handling) : Session F :=
  if h.terminal = h.matched then s.putTo h.origin h.matched
  else (s.putTo h.origin h.matched).putTo h.origin h.terminal

/-- `_finalize_websocket_request_state`. -/
def finalize (h : Handling) : Session F :=
  match h.terminal with
  | some q => s.releaseGate q
  | none => s

def deliver (h : Handling) : Session F := (((s.openGate h).putEvent h).finalize h).afterMessage

/-- A shared error: every request gets a failure of its own. -/
def deliverGroup (h : Handling) : Session F :=
  (h.grouped.foldl (fun t q => (t.releaseGate q).put q none) s).afterMessage

def requeue (q : RequestId) : Session F :=
  (if q ∈ s.pending then s else
    {s with pending := q::s.pending,queuedRequestCount := s.queuedRequestCount+1}).modify q
      fun r => {r with awaitingResponseCreated := true,responseId := none}

def dequeue (q : RequestId) : Session F :=
  if q ∈ s.pending then
    {s with pending := s.pending.erase q,queuedRequestCount := s.queuedRequestCount-1}
  else s

def retryFailed : Option Handling → Session F
  | none => s.failAll
  | some h => (h.status.elim s s.dequeue).deliver {h with origin := none}

def startRetry (q : RequestId) (h : Option Handling) : Session F :=
  {s.countReplay q with reader := .reconnecting q h}

/-- The rest of `_process_http_bridge_upstream_text`. -/
def finishHandling (h : Handling) : Session F :=
  match h.follow,h.status with
  | .group,_ => s.deliverGroup h
  | .retry,some q =>
    match (s.requeue q).precreatedRetry with
    | some p => (s.requeue q).startRetry p (some h)
    | none => (s.requeue q).retryFailed (some h)
  | _,_ => s.deliver h

def lost : Session F :=
  match s.precreatedRetry with
  | some q => s.startRetry q none
  | none => s.failAll

end Session

section
variable (s : Session F) (i : ℕ)

def stepArrive [DecidableEq F] (c : ClientRequest F) : Option (Session F) :=
  match s.requests.get? (.client i) with
  | some _ => none
  | none =>
    let p := prepareStream env c
    let r := attachToSession env s.codexSession s.anchor p
    some ({s with
      anchor := adoptAnchor s.anchor p
      requests := s.requests.set (.client i) r}.submitEntry i r)

/-- The retries of `_stream_via_http_bridge`, which submit the payload as it is. -/
def stepRearrive (payload : Message) (client : List Item) (removed : List Item)
    (preferredAccountId : Option String) : Option (Session F) :=
  match s.requests.get? (.client i) with
  | some _ => none
  | none =>
    let r := {prepareRequest env payload client removed with
      preferredAccountId := preferredAccountId}
    some ({s with requests := s.requests.set (.client i) r}.submitEntry i r)

def stepRecover (attempts : List ConnectAttempt) : SubmitPhase → Option (Session F)
  | .recovering =>
    match s.connect attempts with
    | some account => some ((s.restarted account).checkRetire i)
    | none => some (s.phase i (.raised (.proxy closedError)))
  | _ => none

def stepPrewarm : SubmitPhase → Option (Session F)
  | .checked => (s.requests.get? (.client i)).bind fun r => s.startPrewarm env i r
  | _ => none

def stepEnter (i queueLimit : ℕ) : SubmitPhase → Option (Session F)
  | .entering => some (s.enterQueue i queueLimit)
  | _ => none

def stepAcquire : SubmitPhase → Option (Session F)
  | .sending .waitingGate =>
    (s.acquireGate (.client i)).map fun t => t.phase i (.sending .admitting)
  | .warming .waitingGate =>
    (s.acquireGate (.warmup i)).map fun t => t.phase i (.warming .admitting)
  | _ => none

def stepAdmission (answer : Admission) : SubmitPhase → Option (Session F)
  | .sending .admitting =>
    match answer with
    | .granted => some ((s.enqueue (.client i)).phase i (.sending (.sending s.upstream false)))
    | _ => some ((s.interrupt (.client i) .admitting).phase i (.raised .other))
  | .warming .admitting =>
    match answer with
    | .granted => some ((s.enqueue (.warmup i)).phase i (.warming (.sending s.upstream false)))
    | .overloaded =>
      some ({s.interrupt (.warmup i) .admitting with prewarmed := false}.phase i .entering)
    | .failed => some ({s.interrupt (.warmup i) .admitting with prewarmed := false}.phase i
        (.raised .other))
  | _ => none

def stepWrite : SubmitPhase → Option (Session F)
  | .sending (.sending socket false) => (s.requests.get? (.client i)).map fun r =>
    (s.write socket (.client i) r.requestText).phase i (.sending (.sending socket true))
  | .warming (.sending socket false) => (s.requests.get? (.warmup i)).map fun r =>
    (s.write socket (.warmup i) r.requestText).phase i (.warming (.sending socket true))
  | .resending socket message false =>
    some ((s.write socket (.client i) message).phase i (.resending socket message true))
  | _ => none

def stepSent : SubmitPhase → Option (Session F)
  | .sending (.sending _ true) | .resending _ _ true => some (s.phase i .registering)
  | .warming (.sending _ true) => some (s.phase i .listening)
  | _ => none

def stepSendFailed : SubmitPhase → Option (Session F)
  | .sending (.sending _ _) => (s.requests.get? (.client i)).map fun r => s.sendFailed i r
  | .warming (.sending _ _) => some ((s.endWarmup (.warmup i) true true).phase i (.raised .other))
  | .resending _ _ _ => some (s.failSend i)
  | _ => none

def stepWarmed (ok : Bool) : SubmitPhase → Option (Session F)
  | .listening =>
    if .warmup i ∈ s.pending then none
    else if ok then some (s.phase i .entering)
    else some ((s.endWarmup (.warmup i) true true).phase i (.raised (.proxy prewarmError)))
  | _ => none

def stepRetry (attempts : List ConnectAttempt) : SubmitPhase → Option (Session F)
  | .retrying message =>
    match s.connect attempts with
    | some account => some (((s.restarted account).dropAnchor (.client i) message).phase i
        (.resending (s.restarted account).upstream message false))
    | none => some (s.failSend i)
  | _ => none

def stepRegistered : SubmitPhase → Option (Session F)
  | .registering => some (s.phase i .submitted)
  | _ => none

/-- A cancellation before the events are read; the retry of a failed send and the
registration after the send have no handler for it. -/
def stepCancel : SubmitPhase → Option (Session F)
  | .sending stage => some ((s.interrupt (.client i) stage).phase i (.raised .cancelled))
  | .warming stage =>
    some ({s.interrupt (.warmup i) stage with prewarmed := false}.phase i (.raised .cancelled))
  | .listening => some ((s.endWarmup (.warmup i) true true).phase i (.raised .cancelled))
  | .recovering | .checked | .entering | .retrying _ | .resending _ _ _ | .registering =>
    some (s.phase i (.raised .cancelled))
  | _ => none

/-- The end of the event stream. The retry after a failed forward detaches also
when its submit has raised. -/
def stepDetach : SubmitPhase → Option (Session F)
  | .submitted | .raised _ => some ((s.detach (.client i)).phase i .finished)
  | _ => none

/-- The steps of submit `i`. -/
def stepSubmit (p : SubmitPhase) : Event F → Option (Session F)
  | .recover _ attempts => stepRecover s i attempts p
  | .prewarm _ => stepPrewarm env s i p
  | .enter _ queueLimit => stepEnter s i queueLimit p
  | .acquire _ => stepAcquire s i p
  | .admission _ answer => stepAdmission s i answer p
  | .write _ => stepWrite s i p
  | .sent _ => stepSent s i p
  | .sendFailed _ => stepSendFailed s i p
  | .warmed _ ok => stepWarmed s i ok p
  | .retry _ attempts => stepRetry s i attempts p
  | .registered _ => stepRegistered s i p
  | .cancel _ => stepCancel s i p
  | .detach _ => stepDetach s i p
  | _ => none

def stepReader : Event F → Reader → Option (Session F)
  | .receive ev origin,.receiving => some (s.receive ev origin)
  | .handled,.handling h => some (s.finishHandling h)
  | .disconnected code,.receiving => some {s with lastUpstreamCloseCode := code}.lost
  | .timedOut,.receiving => some s.lost
  | .crashed,.receiving | .crashed,.handling _ => some s.failAll
  | .reconnect attempts,.reconnecting q h =>
    match s.connect attempts with
    | some account => some {s.reconnected account with
        reader := .resending q (s.reconnected account).upstream false h}
    | none => some (s.retryFailed h)
  | .readerWrite,.resending q socket false h => (s.requests.get? q).map fun r =>
    {s.write socket q r.requestText with reader := .resending q socket true h}
  | .readerSent,.resending _ _ true none => some {s with reader := .receiving}
  | .readerSent,.resending _ _ true (some _) => some s.afterMessage
  | .readerSendFailed,.resending _ _ _ h => some (s.retryFailed h)
  | _,_ => none

def Event.submit : Event F → Option ℕ
  | .recover i _ | .prewarm i | .enter i _ | .acquire i | .admission i _ | .write i | .sent i
  | .sendFailed i | .warmed i _ | .retry i _ | .registered i | .cancel i | .detach i => some i
  | _ => none

end

def step [DecidableEq F] (s : Session F) (e : Event F) : Option (Session F) :=
  match e with
  | .arrive i c => stepArrive env s i c
  | .rearrive i payload client removed preferred =>
    stepRearrive env s i payload client removed preferred
  | .retire => some s.retireIfReady
  | .failPending => some s.failQueue
  | .close => some s.stopReader
  | e =>
    match e.submit with
    | some i => (s.submits.get? i).bind fun p => stepSubmit env s i p e
    | none => stepReader s e s.reader

inductive ReaderStep (s : Session F) : Event F → Session F → Prop
  | receive {ev : UpstreamEvent} {origin : Option Origin} (hr : s.reader = .receiving) :
      ReaderStep s (.receive ev origin) (s.receive ev origin)
  | handled {h : Handling} (hr : s.reader = .handling h) :
      ReaderStep s .handled (s.finishHandling h)
  | disconnected {code : Option ℕ} (hr : s.reader = .receiving) :
      ReaderStep s (.disconnected code) {s with lastUpstreamCloseCode := code}.lost
  | timedOut (hr : s.reader = .receiving) : ReaderStep s .timedOut s.lost
  | crashed : ReaderStep s .crashed s.failAll
  | reconnect {q : RequestId} {h : Option Handling} {attempts : List ConnectAttempt}
      {account : String} (hr : s.reader = .reconnecting q h)
      (hc : s.connect attempts = some account) :
      ReaderStep s (.reconnect attempts) {s.reconnected account with
        reader := .resending q (s.reconnected account).upstream false h}
  | reconnectFailed {q : RequestId} {h : Option Handling} {attempts : List ConnectAttempt}
      (hr : s.reader = .reconnecting q h) (hc : s.connect attempts = none) :
      ReaderStep s (.reconnect attempts) (s.retryFailed h)
  | write {q : RequestId} {u : ℕ} {h : Option Handling} {r : Request F}
      (hr : s.reader = .resending q u false h) (hq : s.requests.get? q = some r) :
      ReaderStep s .readerWrite {s.write u q r.requestText with reader := .resending q u true h}
  | sent {q : RequestId} {u : ℕ} (hr : s.reader = .resending q u true none) :
      ReaderStep s .readerSent {s with reader := .receiving}
  | sentAgain {q : RequestId} {u : ℕ} {h : Handling} (hr : s.reader = .resending q u true (some h)) :
      ReaderStep s .readerSent s.afterMessage
  | sendFailed {q : RequestId} {u : ℕ} {written : Bool} {h : Option Handling}
      (hr : s.reader = .resending q u written h) :
      ReaderStep s .readerSendFailed (s.retryFailed h)

variable {s t : Session F} {e : Event F}

theorem stepReader_cases {r : Reader} (hr : s.reader = r) (hs : stepReader s e r = some t) :
    ReaderStep s e t := by
  unfold stepReader at hs
  split at hs
  · cases hs
    exact .receive hr
  · cases hs
    exact .handled hr
  · cases hs
    exact .disconnected hr
  · cases hs
    exact .timedOut hr
  · cases hs
    exact .crashed
  · cases hs
    exact .crashed
  · split at hs
    · cases hs
      exact .reconnect hr ‹_›
    · cases hs
      exact .reconnectFailed hr ‹_›
  · obtain ⟨r,hq,rfl⟩ := Option.map_eq_some_iff.mp hs
    exact .write hr hq
  · cases hs
    exact .sent hr
  · cases hs
    exact .sentAgain hr
  · cases hs
    exact .sendFailed hr
  · cases hs

/-- A step is an arrival, a step of one submit, a step of the reader, or it comes
from outside the session. -/
theorem step_cases [DecidableEq F] (hs : step env s e = some t) :
    (∃ i c, e = .arrive i c ∧ stepArrive env s i c = some t) ∨
    (∃ i m c l a, e = .rearrive i m c l a ∧ stepRearrive env s i m c l a = some t) ∨
    (e = .retire ∧ t = s.retireIfReady) ∨ (e = .failPending ∧ t = s.failQueue) ∨
    (e = .close ∧ t = s.stopReader) ∨
    (∃ i p, e.submit = some i ∧ s.submits.get? i = some p ∧ stepSubmit env s i p e = some t) ∨
    (e.submit = none ∧ ReaderStep s e t) := by
  unfold step at hs
  split at hs
  · exact .inl ⟨_,_,rfl,hs⟩
  · exact .inr (.inl ⟨_,_,_,_,_,rfl,hs⟩)
  · cases hs
    exact .inr (.inr (.inl ⟨rfl,rfl⟩))
  · cases hs
    exact .inr (.inr (.inr (.inl ⟨rfl,rfl⟩)))
  · cases hs
    exact .inr (.inr (.inr (.inr (.inl ⟨rfl,rfl⟩))))
  · refine .inr (.inr (.inr (.inr (.inr ?_))))
    split at hs
    · rename_i hi
      obtain ⟨p,hp,hs⟩ := Option.bind_eq_some_iff.mp hs
      exact .inl ⟨_,p,hi,hp,hs⟩
    · exact .inr ⟨‹_›,stepReader_cases rfl hs⟩

end Steps

end CodexLb.Traffic
