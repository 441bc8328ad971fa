import CodexLb.Dict
import CodexLb.Runs
import Mathlib.Algebra.Order.Ring.Unbundled.Rat

/-!
# The circuit breaker and the calls that go through it

The first part is the breaker itself. Its lock is never held across an
`await`, so `pre_call_check`, `release_half_open_probe` and the two recording
functions are single steps. `HALF_OPEN` is never stored; it is what an open
breaker shows once the recovery timeout has passed.

The second part is what a call does between those steps. There are three kinds
of calls: `CircuitBreaker.call`, the response context manager, and an upstream
websocket that is opened and then streamed. Once the outcome of an await is
known, the breaker operations that the code performs before its next await are
a list, and the call performs them one at a time while other calls go on. A
cancelled task is an exception that is not an `Exception`.

The system keeps a log of what was admitted and recorded, newest entry first.
The code has no such log. One breaker is modelled, for an account whose
identifier is not empty; time is a number of seconds that never decreases.
-/
namespace CodexLb.CircuitBreaker
open Runs

inductive CircuitState where
  | closed
  | opened
  | halfOpen
  deriving DecidableEq, Repr

structure Settings where
  failureThreshold : ℕ
  recoveryTimeoutSeconds : ℚ
  successThreshold : ℕ
  deriving DecidableEq, Repr

inductive Exc where
  | clientResponse (status : ℤ)
  | timeout
  | breakerOpen
  | other (statusCode : Option ℤ)
  | cancelled
  deriving DecidableEq, Repr

def Exc.isException : Exc → Bool
  | .cancelled => false
  | _ => true

def isServerError : Exc → Bool
  | .clientResponse status => 500 ≤ status
  | .timeout => true
  | .other (some code) => 500 ≤ code
  | .other none => true
  | .breakerOpen => true
  | .cancelled => true

structure Breaker where
  stored : CircuitState
  failureCount : ℕ
  successCount : ℕ
  lastFailureTime : Option ℚ
  halfOpenProbeInFlight : Bool
  deriving DecidableEq, Repr

namespace Breaker

def init : Breaker := ⟨.closed,0,0,none,false⟩

variable (cfg : Settings) (b : Breaker) (now : ℚ)

def state : CircuitState :=
  match b.lastFailureTime with
  | some t =>
    if b.stored = .opened ∧ cfg.recoveryTimeoutSeconds ≤ now-t then .halfOpen else b.stored
  | none => b.stored

/-- `none` is the error that the breaker is open. -/
def preCallCheck : Option (Bool × Breaker) :=
  match b.state cfg now with
  | .opened => none
  | .halfOpen =>
    if b.halfOpenProbeInFlight then none else some (true,{b with halfOpenProbeInFlight := true})
  | .closed => some (false,b)

def releaseHalfOpenProbe : Breaker := {b with halfOpenProbeInFlight := false}

def recordSuccess : Breaker :=
  match b.state cfg now with
  | .halfOpen =>
    if cfg.successThreshold ≤ b.successCount+1 then
      {b with stored := .closed,failureCount := 0,successCount := 0}
    else {b with successCount := b.successCount+1}
  | .closed => {b with failureCount := 0}
  | .opened => b

def recordFailure (e : Exc) : Breaker :=
  if isServerError e then
    {b with
      failureCount := b.failureCount+1
      lastFailureTime := some now
      successCount := 0
      stored := if cfg.failureThreshold ≤ b.failureCount+1 then .opened else b.stored}
  else b

end Breaker

inductive Op where
  | success
  | failure (e : Exc)
  | release
  deriving DecidableEq, Repr

inductive Outcome where
  | returned
  | raised (e : Exc)
  deriving DecidableEq, Repr

/-- The answer to the upgrade request: the request raises, or it is answered
with a status, after which the checks may raise; or the socket object cannot
be built. -/
inductive Handshake where
  | raised (e : Exc)
  | answered (status : ℤ) (fault : Option Exc)
  | unbuilt (e : Exc)
  deriving DecidableEq, Repr

inductive Phase where
  | awaiting (probe : Bool)
  | entering (probe : Bool)
  | yielded (probe : Bool) (status : ℤ)
  | connecting (probe hold : Bool)
  | streaming (bound recorded seenTerminal : Bool)
  | acting (ops : List Op) (next : Phase)
  | refused
  | finished
  deriving DecidableEq, Repr

inductive Kind where
  | call
  | context
  | websocket (holdHalfOpenProbe : Bool)
  deriving DecidableEq, Repr

def Kind.admitted (probe : Bool) : Kind → Phase
  | .call => .awaiting probe
  | .context => .entering probe
  | .websocket hold => .connecting probe hold

def releaseIf (b : Bool) : List Op := if b then [.release] else []

def failureIf (e : Exc) : List Op := if e.isException then [.failure e] else []

/-- `CircuitBreaker.call` after its coroutine. -/
def call (probe : Bool) : Outcome → List Op
  | .returned => .success::releaseIf probe
  | .raised e => failureIf e++releaseIf probe

def contextFault (status : Option ℤ) (e : Exc) : List Op :=
  if e = .breakerOpen || !e.isException then []
  else if status.any (· < 500) && !isServerError e then [.success]
  else [.failure e]

/-- The context manager after its body, which ran with a response of this status. -/
def serviceCircuitBreakerContext (probe : Bool) (status : ℤ) : Outcome → List Op
  | .returned => (if 500 ≤ status then .failure (.other none) else .success)::releaseIf probe
  | .raised e => contextFault (some status) e++releaseIf probe

/-- Any status but 101 raises a handshake error, unless something else is raised
first while the answer is read. -/
def handshakeFault (status : ℤ) (fault : Option Exc) : Option Exc :=
  if status = 101 then fault else some (fault.getD (.clientResponse status))

def handshakeRecord (status : ℤ) (fault : Option Exc) : List Op :=
  if 500 ≤ status then [.failure (.other none)]
  else if status ≠ 101 then [.success]
  else fault.elim [] failureIf

def openUpstreamWebsocket (probe hold : Bool) : Handshake → Phase
  | .raised e => .acting (failureIf e++releaseIf (probe && !hold)) .finished
  | .unbuilt _ => .acting (releaseIf (probe && !hold)) .finished
  | .answered status fault =>
    .acting (handshakeRecord status fault++releaseIf (probe && !hold))
      (if (handshakeFault status fault).isNone && hold then .streaming probe false false
       else .finished)

def streamResponsesViaWebsocket (bound recorded seenTerminal : Bool) : Outcome → List Op
  | .returned =>
    (if seenTerminal || recorded then [] else [.failure (.other none)])++releaseIf bound
  | .raised e => (if recorded then [] else failureIf e)++releaseIf bound

inductive Local where
  | entered (status : ℤ)
  | ended (o : Outcome)
  | handshake (h : Handshake)
  | terminalEvent
  deriving DecidableEq, Repr

def Phase.local : Phase → Local → Option Phase
  | .awaiting probe,.ended o => some (.acting (call probe o) .finished)
  | .entering probe,.entered status => some (.yielded probe status)
  | .entering probe,.ended (.raised e) =>
    some (.acting (contextFault none e++releaseIf probe) .finished)
  | .yielded probe status,.ended o =>
    some (.acting (serviceCircuitBreakerContext probe status o) .finished)
  | .connecting probe hold,.handshake h => some (openUpstreamWebsocket probe hold h)
  | .streaming bound recorded _,.terminalEvent =>
    some (.acting (if recorded then [] else [.success]) (.streaming bound true true))
  | .streaming bound recorded seen,.ended o =>
    some (.acting (streamResponsesViaWebsocket bound recorded seen o) .finished)
  | _,_ => none

inductive Entry where
  | admitted (c : ℕ) (probe : Bool)
  | succeeded (c : ℕ) (met : CircuitState)
  | failed (now : ℚ)
  | closed
  deriving DecidableEq, Repr

structure System where
  now : ℚ
  breaker : Breaker
  calls : Dict ℕ Phase
  log : List Entry

inductive Event where
  | advance (now : ℚ)
  | start (c : ℕ) (kind : Kind)
  | proceed (c : ℕ) (l : Local)
  | act (c : ℕ)
  deriving DecidableEq, Repr

namespace System

def start (now : ℚ) : System := ⟨now,.init,Dict.empty,[]⟩

def put (s : System) (c : ℕ) (p : Phase) : System := {s with calls := s.calls.set c p}

/-- A success that finds the breaker open and leaves it closed is also a close. -/
def successEntries (cfg : Settings) (s : System) (c : ℕ) : List Entry :=
  let entry := .succeeded c (s.breaker.state cfg s.now)
  if s.breaker.stored = .opened ∧ (s.breaker.recordSuccess cfg s.now).stored = .closed then
    [.closed,entry]
  else [entry]

def perform (cfg : Settings) (s : System) (c : ℕ) : Op → System
  | .success => {s with
      breaker := s.breaker.recordSuccess cfg s.now
      log := s.successEntries cfg c++s.log}
  | .failure e => {s with
      breaker := s.breaker.recordFailure cfg s.now e
      log := if isServerError e then .failed s.now::s.log else s.log}
  | .release => {s with breaker := s.breaker.releaseHalfOpenProbe}

end System

/-- `pre_call_check` of a new call. -/
def stepStart (cfg : Settings) (s : System) (c : ℕ) (kind : Kind) : Option System :=
  if (s.calls.get? c).isSome then none
  else match s.breaker.preCallCheck cfg s.now with
    | none => some (s.put c .refused)
    | some (probe,b) => some {s.put c (kind.admitted probe) with
        breaker := b
        log := .admitted c probe::s.log}

def stepAct (cfg : Settings) (s : System) (c : ℕ) : Phase → Option System
  | .acting [] next => some (s.put c next)
  | .acting (op::ops) next => some ((s.perform cfg c op).put c (.acting ops next))
  | _ => none

def step (cfg : Settings) (s : System) : Event → Option System
  | .advance now => if s.now ≤ now then some {s with now := now} else none
  | .start c kind => stepStart cfg s c kind
  | .proceed c l => (s.calls.get? c).bind fun p => (p.local l).map (s.put c)
  | .act c => (s.calls.get? c).bind (stepAct cfg s c)

inductive SystemStep (cfg : Settings) (s : System) : Event → System → Prop
  | advance {now : ℚ} (h : s.now ≤ now) : SystemStep cfg s (.advance now) {s with now := now}
  | refuse {c : ℕ} {kind : Kind} (hnew : s.calls.get? c = none)
      (hcheck : s.breaker.preCallCheck cfg s.now = none) :
      SystemStep cfg s (.start c kind) (s.put c .refused)
  | admitted {c : ℕ} {kind : Kind} {probe : Bool} {b : Breaker} (hnew : s.calls.get? c = none)
      (hcheck : s.breaker.preCallCheck cfg s.now = some (probe,b)) :
      SystemStep cfg s (.start c kind) {s.put c (kind.admitted probe) with
        breaker := b
        log := .admitted c probe::s.log}
  | proceed {c : ℕ} {l : Local} {p q : Phase} (hp : s.calls.get? c = some p)
      (hl : p.local l = some q) : SystemStep cfg s (.proceed c l) (s.put c q)
  | goOn {c : ℕ} {next : Phase} (hp : s.calls.get? c = some (.acting [] next)) :
      SystemStep cfg s (.act c) (s.put c next)
  | perform {c : ℕ} {op : Op} {ops : List Op} {next : Phase}
      (hp : s.calls.get? c = some (.acting (op::ops) next)) :
      SystemStep cfg s (.act c) ((s.perform cfg c op).put c (.acting ops next))

theorem step_cases {cfg : Settings} {s t : System} {e : Event} (h : step cfg s e = some t) :
    SystemStep cfg s e t := by
  cases e with
  | advance now =>
    simp only [step] at h
    split_ifs at h with hnow
    cases h
    exact .advance hnow
  | start c kind =>
    simp only [step,stepStart] at h
    split_ifs at h with hnew
    simp only [Bool.not_eq_true,Option.isSome_eq_false_iff,Option.isNone_iff_eq_none] at hnew
    split at h
    · rename_i hcheck
      cases h
      exact .refuse hnew hcheck
    · rename_i hcheck
      cases h
      exact .admitted hnew hcheck
  | proceed c l =>
    obtain ⟨p,hp,h⟩ := Option.bind_eq_some_iff.mp h
    obtain ⟨q,hq,rfl⟩ := Option.map_eq_some_iff.mp h
    exact .proceed hp hq
  | act c =>
    obtain ⟨p,hp,h⟩ := Option.bind_eq_some_iff.mp h
    unfold stepAct at h
    split at h
    · cases h
      exact .goOn hp
    · cases h
      exact .perform hp
    · cases h

@[simp] theorem System.put_breaker (s : System) (c : ℕ) (p : Phase) :
    (s.put c p).breaker = s.breaker := rfl

/-- A server error is noted, any other exception leaves no trace. -/
theorem System.perform_failure (cfg : Settings) (s : System) (c : ℕ) (e : Exc) :
    (isServerError e = true ∧ s.perform cfg c (.failure e) =
      {s with
        breaker := s.breaker.recordFailure cfg s.now e
        log := .failed s.now::s.log}) ∨
    ((s.perform cfg c (.failure e)).breaker = s.breaker ∧
      (s.perform cfg c (.failure e)).log = s.log) := by
  by_cases he : isServerError e = true
  · exact .inl ⟨he,by simp [System.perform,he]⟩
  · exact .inr ⟨by simp [System.perform,Breaker.recordFailure,he],by simp [System.perform,he]⟩

@[simp] theorem System.perform_calls (cfg : Settings) (s : System) (c : ℕ) (op : Op) :
    (s.perform cfg c op).calls = s.calls := by
  cases op <;> rfl

end CodexLb.CircuitBreaker
