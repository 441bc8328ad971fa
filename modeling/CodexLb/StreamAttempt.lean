import CodexLb.TokenRefresh
import Mathlib.Data.List.Infix

/-!
# One upstream streaming attempt

`ProxyService._stream_once` as a function of what the upstream client does: the
lines it yields and how it ends. An attempt produces the lines passed on to the
consumer, the settlement record the retry loop reads, and the exception that
leaves the generator, if any.

A line is what the code reads of it. `parsed` says that the event model
accepted the payload; a line that is not parsed still has a type and, in its
payload, token counts. `duplicate` says that the tool call of an item event was
seen before. Bodies, latencies, request logs and account health calls are left
out: no control decision reads them.
-/
namespace CodexLb.Streams

structure Env where
  lower : String → String
  collapse : String → String

structure OpenAIError where
  code : Option String
  type : Option String
  message : Option String
  param : Option String
  deriving DecidableEq, Repr

structure ProxyResponseError where
  statusCode : ℕ
  error : Option OpenAIError
  deriving DecidableEq, Repr

structure Usage where
  inputTokens : Option ℤ
  outputTokens : Option ℤ
  cachedTokens : Option ℤ
  deriving DecidableEq, Repr

inductive EventType where
  | textDelta | textDone | itemDone | completed | incomplete | failed | error | other
  deriving DecidableEq, Repr

def EventType.terminal : EventType → Bool
  | .completed | .incomplete | .failed | .error => true
  | _ => false

/-- Input, output and cached input tokens, when the first two are known. -/
def Usage.counts (u : Usage) : Option (ℤ × ℤ × ℤ) :=
  match u.inputTokens,u.outputTokens with
  | some i,some o => some (i,o,u.cachedTokens.getD 0)
  | _,_ => none

structure Line where
  type : EventType
  parsed : Bool
  responseId : Option String
  error : Option OpenAIError
  message : Option String
  usage : Option Usage
  serviceTier : Option String
  duplicate : Bool
  deriving DecidableEq, Repr

def Line.counts (l : Line) : Option (ℤ × ℤ × ℤ) :=
  if l.type = .completed then l.usage.bind Usage.counts else none

/-- What the upstream client or a call on the way to it may raise:
`ProxyResponseError`, an aiohttp or timeout error, anything else. -/
inductive Failure where
  | proxy (e : ProxyResponseError)
  | client (message : String)
  | other
  deriving DecidableEq, Repr

inductive Exc where
  | failure (f : Failure)
  | retryable (code : String) (message : Option String) (excludeAccount : Bool)
  | transient (code : String) (message : Option String)
  | terminal (code : String)
  deriving DecidableEq, Repr

/-- `none` is the end of the stream. -/
structure UpstreamRun where
  lines : List Line
  raises : Option Failure
  deriving DecidableEq, Repr

/-- The upstream client yields events ending in one terminal event, or raises
before one. -/
def UpstreamRun.WellFormed (r : UpstreamRun) : Prop :=
  (r.raises = none ∧ ∃ ls l, r.lines = ls++[l] ∧ l.type.terminal = true ∧
    ∀ k ∈ ls, k.type.terminal = false) ∨
  (r.raises ≠ none ∧ ∀ k ∈ r.lines, k.type.terminal = false)

def accountRecoveryRetryCodes : List String :=
  ["rate_limit_exceeded","usage_limit_reached","insufficient_quota","usage_not_included",
    "quota_exceeded"]++TokenRefresh.permanentFailureCodes.map Prod.fst

def transientRetryCodes : List String :=
  ["server_error","stream_incomplete","stream_idle_timeout","upstream_request_timeout"]

/-- `a or b` on optional strings. -/
def orElse (a b : Option String) : Option String := if TokenRefresh.truthy a then a else b

def normalizeErrorCode (env : Env) (code type : Option String) : String :=
  match orElse code type with
  | none => "upstream_error"
  | some v => if v = "" then "upstream_error" else env.lower v

def errorCode (env : Env) (e : Option OpenAIError) : String :=
  normalizeErrorCode env (e.bind (·.code)) (e.bind (·.type))

/-- `needle in text`. -/
def occursIn (needle text : String) : Bool :=
  text.toList.tails.any fun t => needle.toList.isPrefixOf t

def isPreviousResponseNotFoundMessage (env : Env) : Option String → Bool
  | none => false
  | some m => occursIn "previous response" (env.collapse m) && occursIn "not found" (env.collapse m)

def isPreviousResponseNotFoundError (env : Env) (code : String) (param message : Option String) :
    Bool :=
  code = "previous_response_not_found" ||
    (code = "invalid_request_error" && param = some "previous_response_id" &&
      isPreviousResponseNotFoundMessage env message)

def isMissingToolOutputError (env : Env) (code : String) (param message : Option String) : Bool :=
  match message with
  | none => false
  | some m => code = "invalid_request_error" && param = some "input" &&
      "no tool output found for function call call_".toList.isPrefixOf (env.collapse m).toList

/-- Code and message of the event that replaces a continuity error. -/
def rewritePreviousResponseStreamError (env : Env) (previousResponseId preferred : Option String)
    (code : String) (e : Option OpenAIError) : Option (String × String) :=
  if previousResponseId = none then none
  else if isPreviousResponseNotFoundError env code (e.bind (·.param)) (e.bind (·.message)) ||
      isMissingToolOutputError env code (e.bind (·.param)) (e.bind (·.message)) then
    some ("stream_incomplete","Upstream websocket closed before response.completed")
  else if preferred ≠ none &&
      normalizeErrorCode env (some code) (e.bind (·.type)) ∈ accountRecoveryRetryCodes then
    some ("upstream_unavailable","Previous response owner account is unavailable; retry later.")
  else none

/-- `response_failed_event`. -/
def failedEvent (code message : String) (errorType : String) (responseId param : Option String) :
    Line :=
  ⟨.failed,true,orElse responseId none,
    some ⟨some code,some errorType,some message,orElse param none⟩,none,none,none,false⟩

def serverError (code message : String) (responseId : String) : Line :=
  failedEvent code message "server_error" (some responseId) none

structure Request where
  env : Env
  requestId : String
  previousResponseId : Option String
  serviceTier : Option String
  suppressTextDoneEvents : Bool

structure Flags where
  allowRetry : Bool
  allowTransientRetry : Bool
  preferredAccountId : Option String

structure Settlement where
  success : Bool
  inputTokens : Option ℤ
  outputTokens : Option ℤ
  cachedInputTokens : Option ℤ
  serviceTier : Option String
  downstreamVisible : Bool
  responseId : Option String
  deriving DecidableEq, Repr

/-- The counts to finalize with; without them the reservation is released. -/
def Settlement.counts (s : Settlement) : Option (ℤ × ℤ × ℤ) :=
  if s.success then (Usage.mk s.inputTokens s.outputTokens s.cachedInputTokens).counts else none

/-- The local variables of `_stream_once` that its control flow reads. -/
structure Progress where
  success : Bool
  usage : Option Usage
  responseId : String
  serviceTier : Option String
  sawTextDelta : Bool
  suppressedDuplicate : Bool
  visible : Bool
  settledResponseId : Option String
  deriving DecidableEq, Repr

def Progress.settlement (p : Progress) : Settlement :=
  ⟨p.success,p.usage.bind (·.inputTokens),p.usage.bind (·.outputTokens),
    p.usage.bind (·.cachedTokens),p.serviceTier,p.visible,p.settledResponseId⟩

structure Attempt where
  lines : List Line
  settlement : Settlement
  raised : Option Exc
  deriving DecidableEq, Repr

def Attempt.cons (l : Line) (a : Attempt) : Attempt := {a with lines := l::a.lines}

section Once
variable (q : Request) (f : Flags) (p : Progress)

/-- The handler of a `ProxyResponseError`, and the way every other exception
takes through the generator. -/
def raisedAttempt : Failure → Attempt
  | .proxy e =>
    let p := {p with success := false}
    match rewritePreviousResponseStreamError q.env q.previousResponseId f.preferredAccountId
      (errorCode q.env e.error) e.error with
    | some (code,message) => ⟨[serverError code message q.requestId],p.settlement,none⟩
    | none => ⟨[],p.settlement,some (.failure (.proxy e))⟩
  | g => ⟨[],p.settlement,some (.failure g)⟩

variable (l : Line)

def shouldSuppressTextDoneEvent : Bool :=
  q.suppressTextDoneEvents && p.sawTextDelta && l.type = .textDone

/-- An `error` event without an error object becomes a failed response. -/
def normalizeRawError : Line :=
  if l.type = .error && (!l.parsed || l.error = none) then
    serverError "upstream_error" ((orElse l.message none).getD "Upstream error") p.responseId
  else l

/-- The code of a failed or error event. An error object that names only the
type `error` counts as an upstream error. -/
def eventErrorCode : String :=
  let code := errorCode q.env l.error
  if l.type = .error && code = "error" && !TokenRefresh.truthy (l.error.bind (·.code)) then
    "upstream_error"
  else code

def noteLine : Progress :=
  {p with
    serviceTier := l.serviceTier.orElse fun _ => p.serviceTier
    sawTextDelta := p.sawTextDelta || l.type = .textDelta}

/-- A failed or error event after the first line; `id` is its response id. -/
def readFailure (id : Option String) : Progress × Line :=
  let p := {p with
    success := false
    responseId := id.getD p.responseId
    settledResponseId := id.orElse fun _ => p.settledResponseId}
  match rewritePreviousResponseStreamError q.env q.previousResponseId f.preferredAccountId
    (eventErrorCode q l) l.error with
  | some (code,message) =>
    ({p with responseId := id.getD q.requestId},serverError code message (id.getD q.requestId))
  | none => (p,l)

def noteEnd : Progress :=
  let id := orElse l.responseId none
  {p with
    usage := l.usage
    responseId := id.getD p.responseId
    settledResponseId := id.orElse fun _ => p.settledResponseId}

/-- Bookkeeping for a parsed line after the first, and the line passed on. A
completed response is turned into a failed one when a tool call was dropped. -/
def readLine : Progress × Line :=
  match l.type with
  | .failed => readFailure q f p l (orElse l.responseId none)
  | .error => readFailure q f p l none
  | .completed =>
    if p.suppressedDuplicate then
      ({noteEnd p l with success := false},serverError "stream_incomplete"
        "Suppressed duplicate side-effect tool call; upstream response cannot be continued safely."
        (noteEnd p l).responseId)
    else (noteEnd p l,l)
  | .incomplete => ({noteEnd p l with success := false},l)
  | _ => (p,l)

def restOfStream (raises : Option Failure) : Progress → List Line → Attempt
  | p,[] =>
    match raises with
    | none => ⟨[],p.settlement,none⟩
    | some g => raisedAttempt q f p g
  | p,l::ls =>
    let l := normalizeRawError p l
    let p := noteLine p l
    if shouldSuppressTextDoneEvent q p l then restOfStream raises p ls else
    let r := if l.parsed then readLine q f p l else (p,l)
    if r.2.type = .itemDone && r.2.duplicate then
      restOfStream raises {r.1 with suppressedDuplicate := true} ls
    else (restOfStream raises {r.1 with visible := true} ls).cons r.2

/-- The first line, once it is known that it does not end the attempt. -/
def passOn (raises : Option Failure) (p : Progress) (l : Line) (ls : List Line) : Attempt :=
  if shouldSuppressTextDoneEvent q p l then restOfStream q f raises p ls
  else if l.type = .itemDone && l.duplicate then
    restOfStream q f raises {p with suppressedDuplicate := true} ls
  else (restOfStream q f raises {p with visible := true} ls).cons l

/-- A failed or error event in first place raises before it is passed on, or
is passed on together with the exception to raise afterwards. -/
def readFirstFailure (id : String) : Except Exc (Progress × Line × Option Exc) :=
  let code := eventErrorCode q l
  let message := l.error.bind (·.message)
  let p := {p with success := false,responseId := id}
  match rewritePreviousResponseStreamError q.env q.previousResponseId f.preferredAccountId
    code l.error with
  | some (rewritten,text) => .ok (p,serverError rewritten text id,some (.terminal rewritten))
  | none =>
    if f.allowRetry && code = "stream_idle_timeout" then .error (.retryable code message true)
    else if f.allowRetry && code ∈ accountRecoveryRetryCodes then
      .error (.retryable code message false)
    else if f.allowTransientRetry && code ∈ transientRetryCodes &&
        code ≠ "stream_idle_timeout" then .error (.transient code message)
    else .ok (p,l,some (.terminal code))

def readFirst : Except Exc (Progress × Line × Option Exc) :=
  if !l.parsed then .ok (p,l,none) else
  let id := orElse l.responseId none
  let p := {p with
    responseId := id.getD p.responseId
    settledResponseId := id.orElse fun _ => p.settledResponseId}
  match l.type with
  | .failed => readFirstFailure q f p l (id.getD q.requestId)
  | .error => readFirstFailure q f p l q.requestId
  | .completed => .ok ({p with usage := l.usage},l,none)
  | .incomplete => .ok ({p with usage := l.usage,success := false},l,none)
  | _ => .ok (p,l,none)

/-- `_stream_once`. -/
def streamOnce (run : UpstreamRun) : Attempt :=
  let p : Progress := ⟨true,none,q.requestId,q.serviceTier,false,false,false,none⟩
  match run.lines,run.raises with
  | [],none =>
    ⟨[serverError "stream_incomplete" "Upstream websocket closed before response.completed"
      q.requestId],{p.settlement with success := false},none⟩
  | [],some (.client message) =>
    let message := if message = "" then "Request to upstream timed out" else message
    let settlement := {p.settlement with success := false}
    if f.allowRetry then
      ⟨[],settlement,some (.retryable "upstream_unavailable" (some message) true)⟩
    else ⟨[serverError "upstream_unavailable" message q.requestId],settlement,none⟩
  | [],some g => raisedAttempt q f p g
  | l::ls,raises =>
    let tiered := {p with serviceTier := l.serviceTier.orElse fun _ => p.serviceTier}
    match readFirst q f tiered l with
    | .error exc => ⟨[],{tiered.settlement with success := false},some exc⟩
    | .ok (p,l,terminalError) =>
      let p := {p with sawTextDelta := l.type = .textDelta}
      match terminalError with
      | some exc => ⟨[l],({p with visible := true} : Progress).settlement,some exc⟩
      | none => passOn q f raises p l ls

end Once

end CodexLb.Streams
