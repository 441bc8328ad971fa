import CodexLb.StreamAttempt

/-!
# Streaming with retries

`ProxyService._stream_with_retry` as a function of the outcomes it meets: for
each of the three account rounds, what selection, refresh, the attempts and the
attempt after a forced refresh do, and at which of its checks the request
budget is used up. The result lists, in order, the effects a consumer or the
ledger can see, and the exception that leaves the generator.

`Act.setup` marks the entry of the `try` statement whose `finally` releases the
reservation. Awaits without an effect of their own lie between two acts.
-/
namespace CodexLb.Streams

inductive Act where
  | setup
  | attempt (account : String)
  | yield (line : Line)
  | settle (s : Settlement)
  deriving DecidableEq, Repr

inductive FailureClass where
  | rateLimit | quota | retryableTransient | nonRetryable
  deriving DecidableEq, Repr

def classifyUpstreamFailure (code : String) (httpStatus : Option ℕ) : FailureClass :=
  if code ∈ ["rate_limit_exceeded","usage_limit_reached"] then .rateLimit
  else if code ∈ ["insufficient_quota","usage_not_included","quota_exceeded"] then .quota
  else if code ∈ ["server_error","upstream_error","stream_incomplete","overloaded_error"] ||
      httpStatus.any (500 ≤ ·) then .retryableTransient
  else .nonRetryable

def isAccountNeutralErrorCode (code : String) : Bool :=
  code ∈ ["proxy_overloaded","proxy_unavailable"]

/-- `failover_decision`: true is `failover_next`, false is `surface`. -/
def failoverDecision (c : FailureClass) (downstreamVisible : Bool) (candidatesRemaining : ℕ) :
    Bool :=
  !downstreamVisible && 0 < candidatesRemaining && c ≠ .nonRetryable

inductive Selection where
  | raised (e : ProxyResponseError)
  | crashed
  | none (code message : Option String)
  | account (id : String)
  deriving DecidableEq, Repr

inductive RefreshOutcome where
  | ok
  | refreshError (isPermanent : Bool)
  | failure (f : Failure)
  deriving DecidableEq, Repr

/-- One call of `_stream_once` and whether budget is left after it. -/
structure Try where
  run : UpstreamRun
  budgetLeft : Bool
  deriving DecidableEq, Repr

/-- What one pass of the account loop meets, in the order it asks. Of the calls
a refresh makes only work admission raises a `ProxyResponseError`. -/
structure Round where
  budget : Bool
  selection : Selection
  budgetBeforeRefresh : Bool
  refresh : RefreshOutcome
  admission : ∀ e, refresh = .failure (.proxy e) → e.statusCode = 429
  budgetBeforeAttempt : Bool
  tries : ℕ → Try
  budgetBeforeForcedRefresh : Bool
  forcedRefresh : RefreshOutcome
  budgetBeforeSecond : Bool
  second : UpstreamRun

structure Config extends Request where
  propagateHttpErrors : Bool
  deterministicFailoverEnabled : Bool
  hasReservation : Bool
  /-- The account that owns `previous_response_id`, when one was found. -/
  owner : Option String
  fileAccountId : Option String

def Config.preferredAccountId (cfg : Config) : Option String :=
  cfg.owner.orElse fun _ => cfg.fileAccountId

structure RetryState where
  lastTransientExc : Option ProxyResponseError
  lastRetryableStreamError : Option (String × Option String)
  deriving DecidableEq, Repr

def maxTransientSameAccountRetries : ℕ := 3
def streamMaxAccountAttempts : ℕ := 3

section Retry
variable (cfg : Config)

def settleActs (s : Settlement) : List Act := if cfg.hasReservation then [.settle s] else []

def timeoutEvent : Line :=
  serverError "upstream_request_timeout" "Proxy request budget exhausted" cfg.requestId

def proxyErrorEvent (e : ProxyResponseError) (default responseId : String)
    (param : Option String) : Line :=
  failedEvent (errorCode cfg.env e.error) ((orElse (e.error.bind (·.message)) none).getD default)
    ((orElse (e.error.bind (·.type)) none).getD "server_error") (some responseId) param

/-- How the body of a round leaves its `try` statement. -/
inductive Pass where
  | returned (acts : List Act)
  | failover (acts : List Act) (exc : Option ProxyResponseError)
  | raised (acts : List Act) (exc : Exc)

def Pass.prepend (acts : List Act) : Pass → Pass
  | .returned b => .returned (acts++b)
  | .failover b e => .failover (acts++b) e
  | .raised b e => .raised (acts++b) e

def attemptActs (account : String) (a : Attempt) : List Act :=
  .attempt account::a.lines.map .yield

/-- A transient or proxy error after output: one failed event, then settle. -/
def surfaceMidStream (account : String) (a : Attempt) (event : Line) : Pass :=
  .returned (attemptActs account a++.yield event::settleActs cfg a.settlement)

def failedResponseId (a : Attempt) : String :=
  (orElse a.settlement.responseId none).getD cfg.requestId

/-- What follows an attempt on the same account. `again` is the way on after a
transient failure, `candidates` the number of rounds left. -/
def afterAttempt (account : String) (candidates : ℕ) (a : Attempt)
    (again : Option ProxyResponseError → Pass) : Pass :=
  let acts := attemptActs account a
  match a.raised with
  | none => .returned (acts++settleActs cfg a.settlement)
  | some (.transient code message) =>
    if a.settlement.downstreamVisible then
      surfaceMidStream cfg account a (serverError (if code = "" then "upstream_error" else code)
        ((orElse message none).getD "Upstream error") (failedResponseId cfg a))
    else again none
  | some (.failure (.proxy e)) =>
    if a.settlement.downstreamVisible then
      surfaceMidStream cfg account a
        (proxyErrorEvent cfg e "Upstream error" (failedResponseId cfg a) (e.error.bind (·.param)))
    else if e.statusCode = 500 then again (some e)
    else
      let code := errorCode cfg.env e.error
      if isAccountNeutralErrorCode code then .raised acts (.failure (.proxy e))
      else if cfg.deterministicFailoverEnabled && failoverDecision
          (classifyUpstreamFailure code (some e.statusCode)) false candidates then
        .failover acts (some e)
      else .raised acts (.failure (.proxy e))
  | some exc => .raised acts exc

/-- The same-account loop. `left` counts the attempts that may still follow
this one. -/
def transientLoop (account : String) (candidates : ℕ) (tries : ℕ → Try) : ℕ → ℕ → Pass
  | left,i =>
    let allowRetry : Bool := 0 < candidates
    let a := streamOnce cfg.toRequest
      ⟨allowRetry,0 < left || allowRetry,cfg.preferredAccountId⟩ (tries i).run
    let acts := attemptActs account a
    afterAttempt cfg account candidates a fun exc =>
      match left with
      | 0 => .failover acts exc
      | n+1 =>
        if (tries i).budgetLeft then
          (transientLoop account candidates tries n (i+1)).prepend acts
        else .failover acts exc

/-- How a round ends: the generator is over, or the next round starts. -/
inductive RoundResult where
  | stop (acts : List Act) (exc : Option Exc)
  | next (acts : List Act) (st : RetryState)
  deriving DecidableEq, Repr

/-- The attempt after a forced refresh. It runs inside an exception handler:
what it raises leaves the generator. -/
def streamAfterRefresh (account : String) (acts : List Act) (run : UpstreamRun) : RoundResult :=
  let a := streamOnce cfg.toRequest ⟨false,false,none⟩ run
  match a.raised with
  | none => .stop (acts++(attemptActs account a++settleActs cfg a.settlement)) none
  | some exc => .stop (acts++attemptActs account a) (some exc)

def handleUnauthorized (account : String) (st : RetryState) (r : Round) (acts : List Act) :
    RoundResult :=
  if !r.budgetBeforeForcedRefresh then .stop (acts++[.yield (timeoutEvent cfg)]) none else
  match r.forcedRefresh with
  | .refreshError _ => .next acts st
  | .failure (.client message) =>
    let message := if message = "" then "Request to upstream timed out" else message
    .stop (acts++[.yield (serverError "upstream_unavailable" message cfg.requestId)]) none
  | .failure f => .stop acts (some (.failure f))
  | .ok =>
    if !r.budgetBeforeSecond then .stop (acts++[.yield (timeoutEvent cfg)]) none
    else streamAfterRefresh cfg account acts r.second

/-- The handler of a `ProxyResponseError` raised in a round. -/
def handleProxyError (account : String) (st : RetryState) (r : Round) (acts : List Act)
    (e : ProxyResponseError) : RoundResult :=
  if e.statusCode = 401 then handleUnauthorized cfg account st r acts
  else if cfg.propagateHttpErrors then .stop acts (some (.failure (.proxy e)))
  else .stop (acts++[.yield (proxyErrorEvent cfg e "Upstream error" cfg.requestId
    (e.error.bind (·.param)))]) none

/-- The `except` clauses of a round. -/
def handleRaised (account : String) (st : RetryState) (r : Round) (acts : List Act) :
    Exc → RoundResult
  | .retryable code message _ =>
    .next acts {st with lastRetryableStreamError := some (code,message)}
  | .terminal _ => .stop acts none
  | .failure (.proxy e) => handleProxyError cfg account st r acts e
  | _ => .stop (acts++[.yield (serverError "upstream_error" "Proxy streaming failed"
      cfg.requestId)]) none

def ownerUnavailableEvent : Line :=
  serverError "upstream_unavailable" "Previous response owner account is unavailable; retry later."
    cfg.requestId

def giveUp (st : RetryState) (code message : String) : RoundResult :=
  match cfg.propagateHttpErrors,st.lastTransientExc,st.lastRetryableStreamError with
  | true,some e,_ => .stop [] (some (.failure (.proxy e)))
  | _,_,some (code,text) =>
    .stop [.yield (serverError code ((orElse text none).getD "Upstream error") cfg.requestId)] none
  | _,_,none => .stop [.yield (serverError code message cfg.requestId)] none

def runAccount (account : String) (st : RetryState) (candidates : ℕ) (r : Round) : RoundResult :=
  if !r.budgetBeforeRefresh then .stop [.yield (timeoutEvent cfg)] none else
  match r.refresh with
  | .refreshError _ => .next [] st
  | .failure (.client message) =>
    let message := if message = "" then "Request to upstream timed out" else message
    .stop [.yield (serverError "upstream_unavailable" message cfg.requestId)] none
  | .failure f => handleRaised cfg account st r [] (.failure f)
  | .ok =>
    if !r.budgetBeforeAttempt then .stop [.yield (timeoutEvent cfg)] none else
    match transientLoop cfg account candidates r.tries (maxTransientSameAccountRetries-1) 0 with
    | .returned acts => .stop acts none
    | .failover acts exc =>
      .next acts {st with lastTransientExc := exc.orElse fun _ => st.lastTransientExc}
    | .raised acts exc => handleRaised cfg account st r acts exc

def runRound (st : RetryState) (candidates : ℕ) (r : Round) : RoundResult :=
  if !r.budget then .stop [.yield (timeoutEvent cfg)] none else
  match r.selection with
  | .raised e =>
    let budgetExhausted := errorCode cfg.env e.error = "upstream_unavailable" &&
      e.error.bind (·.message) = some "Proxy request budget exhausted"
    .stop [.yield (if budgetExhausted then timeoutEvent cfg
      else proxyErrorEvent cfg e "Upstream unavailable" cfg.requestId none)] none
  | .crashed => .stop [] (some (.failure .other))
  | .none code message =>
    if cfg.owner ≠ none then .stop [.yield (ownerUnavailableEvent cfg)] none
    else giveUp cfg st ((orElse code none).getD "no_accounts")
      ((orElse message none).getD "No active accounts available")
  | .account id =>
    if cfg.owner ≠ none && cfg.preferredAccountId ≠ some id then
      .stop [.yield (ownerUnavailableEvent cfg)] none
    else runAccount cfg id st candidates r

structure Run where
  acts : List Act
  exc : Option Exc

def runRounds : RetryState → List Round → Run
  | st,[] =>
    match giveUp cfg st "no_accounts" "No available accounts after retries" with
    | .stop acts exc => ⟨acts,exc⟩
    | .next acts _ => ⟨acts,none⟩
  | st,r::rs =>
    match runRound cfg st rs.length r with
    | .stop acts exc => ⟨acts,exc⟩
    | .next acts st =>
      let rest := runRounds st rs
      ⟨acts++rest.acts,rest.exc⟩

/-- Everything a call of `_stream_with_retry` meets. -/
structure Script where
  /-- Unsupported image references are refused before the `try` statement. -/
  imageReferences : Option ProxyResponseError
  ownerLookupFailed : Option ProxyResponseError
  rounds : List Round
  length : rounds.length = streamMaxAccountAttempts

def streamWithRetry (s : Script) : Run :=
  match s.imageReferences,s.ownerLookupFailed with
  | some e,_ => ⟨[],some (.failure (.proxy e))⟩
  | none,some e => ⟨[.setup],some (.failure (.proxy e))⟩
  | none,none =>
    let run := runRounds cfg ⟨none,none⟩ s.rounds
    ⟨.setup::run.acts,run.exc⟩

end Retry

end CodexLb.Streams
