import CodexLb.BridgeLookup
import CodexLb.Runs

/-!
# Concurrent calls for bridge sessions

Any number of calls of `ProxyService._get_or_create_http_bridge_session` as a
step function. A call rests at its awaits; a step runs the code from one await
to the next. The bridge lock is part of the state: a call holds it from
`acquire` until it leaves the locked block, so that only its own steps and the
session tasks, which need no lock, happen in between. A cancellation may hit a
call at every await. What the registration gate, the account selection and the
upstream answer is part of the event. The key of a future is a ghost field.
-/
namespace CodexLb.Bridge

def Phase.done : Phase → Bool
  | .returned _ _ | .forwarded _ | .raised _ => true
  | _ => false

structure Running where
  call : Call
  phase : Phase

inductive FutureState where
  | pending
  | result (sid : ℕ)
  | exception (e : Raised)
  | cancelled
  deriving DecidableEq, Repr

/-- How the handler of a failed creation completes the future. -/
def Raised.outcome : Raised → FutureState
  | .cancelled => .cancelled
  | e => .exception e

structure Future where
  key : SessionKey
  state : FutureState
  deriving DecidableEq, Repr

structure World where
  registry : Registry
  inflight : Dict SessionKey ℕ
  futures : Dict ℕ Future
  calls : Dict ℕ Running
  lock : Option ℕ

/-- The awaits inside the locked block. -/
def Phase.locked : Phase → Bool
  | .scanning _ _ _ _ | .pruning _ _ _ | .reusing _ | .owner _ | .refreshing _ _ | .evicting _
  | .weighing _ _ _ => true
  | _ => false

inductive Event where
  | call (i : ℕ) (c : Call)
  | register (i : ℕ) (ready : Bool)
  | acquire (i : ℕ) (now : ℤ)
  | scan (i : ℕ)
  | prune (i : ℕ)
  | select (i : ℕ) (now : ℤ)
  | reused (i : ℕ)
  | owner (i : ℕ) (probe : OwnerProbe)
  | refreshed (i : ℕ)
  | evict (i : ℕ)
  | weigh (i : ℕ)
  | close (i : ℕ)
  | closeFailed (i : ℕ)
  | proceed (i : ℕ)
  | capacity (i : ℕ)
  | joined (i : ℕ) (now : ℤ)
  | drop (i : ℕ)
  | created (i : ℕ) (account : Account) (now : ℤ)
  | claimed (i : ℕ)
  | registered (i : ℕ)
  | failed (i : ℕ) (exc : Raised)
  | unwind (i : ℕ)
  | cancel (i : ℕ)
  | session (sid : ℕ) (update : SessionUpdate)
  | registerTurnState (sid : ℕ) (turnState : String)
  | registerPreviousResponseId (sid : ℕ) (responseId : String)
  | closeSession (sid : ℕ) (stage : CloseStage)
  | reset (sid : ℕ)
  | closeAll

namespace World

def empty : World := ⟨.empty,Dict.empty,Dict.empty,Dict.empty,none⟩

variable (w : World) (i : ℕ) (run : Running)

def rest (p : Phase) : World :=
  {w with calls := w.calls.set i {run with phase := p}}

def leave (r : Registry) (p : Phase) : World :=
  {w with
    registry := r
    calls := w.calls.set i {run with phase := p}
    lock := if p.locked then some i else none}

/-- An exception takes a call to `p`, out of the locked block if it is in it. -/
def abort (p : Phase) : World :=
  {w.rest i run p with lock := if run.phase.locked then none else w.lock}

def update (r : Registry) (p : Phase) : World :=
  {w with registry := r,calls := w.calls.set i {run with phase := p}}

def complete (futures : Dict ℕ Future) (f : ℕ) (state : FutureState) : Dict ℕ Future :=
  match futures.get? f with
  | some ⟨key,.pending⟩ => futures.set f ⟨key,state⟩
  | _ => futures

/-- Take the future out of the map and complete it, unless the map holds
another one by now. -/
def completeSlot (l : Locals) (state : FutureState) : World :=
  if w.inflight.get? l.key = l.inflightFuture then
    {w with
      inflight := w.inflight.pop l.key
      futures := match l.inflightFuture with
        | some f => complete w.futures f state
        | none => w.futures}
  else w

def insertSlot (key : SessionKey) : World :=
  {w with
    inflight := w.inflight.set key i
    futures := w.futures.set i ⟨key,.pending⟩}

def accountId (sid : ℕ) : String :=
  ((w.registry.heap.get? sid).map (·.account.id)).getD ""

def full (c : Call) : Bool :=
  c.maxSessions ≤ w.registry.sessions.rows.length+w.inflight.rows.length

/-- Nothing can be evicted and there is no room: wait for a creation, or fail. -/
def noRoom (l : Locals) : World :=
  match w.inflight.rows with
  | q::_ => w.leave i run w.registry
      (.closing {l with capacityWaitFuture := some q.2} l.sessionsToClose .turnStates)
  | [] => w.leave i run w.registry (.raised (.proxy noIdleCapacityError))

/-- The head of the eviction loop: look at the sessions, or go on behind it. -/
def evict (l : Locals) : World :=
  match w.full run.call,w.registry.sessions.rows with
  | true,row::rows => w.leave i run w.registry (.weighing l (row::rows) [])
  | true,[] => w.noRoom i run l
  | false,_ =>
    let l := {l with inflightFuture := some i,ownsCreation := true}
    (w.insertSlot i l.key).leave i run w.registry (.closing l l.sessionsToClose .turnStates)

/-- The loop has the pending counts of all sessions. If none is idle it is left,
and since the lock is held there is still no room. -/
def evictFrom (l : Locals) (idle : List (SessionKey × ℕ)) : World :=
  match w.registry.evictionCandidate idle with
  | some (key,sid) => w.leave i run (w.registry.pop key)
      (.evicting {l with sessionsToClose := l.sessionsToClose++[sid]})
  | none => w.noRoom i run l

def join (env : Env) (w : World) (i : ℕ) (run : Running) (l : Locals) (sid : ℕ) (now : ℤ) : World :=
  match w.registry.heap.get? sid with
  | none => w.rest i run (.acquiring l.key)
  | some s =>
    if reusable run.call l.key s && allowsLocalReuse env now run.call.durableLookup then
      w.update i run (w.registry.modify sid fun s => {s with lastUsedAt := now})
        (.returned sid s.account.id)
    else if s.usable then w.rest i run (.dropping l sid s.retiringWithVisibleRequests)
    else w.rest i run (.acquiring l.key)

/-- The stages of `_close_http_bridge_session` without the lock. -/
def closeStage (r : Registry) (sid : ℕ) : CloseStage → Registry
  | .turnStates => (r.markClosed sid).unregisterTurnStates sid
  | .previousResponseIds => r.unregisterPreviousResponseIds sid
  | .teardown => r

end World

def CloseStage.next : CloseStage → Option CloseStage
  | .turnStates => some .previousResponseIds
  | .previousResponseIds => some .teardown
  | .teardown => none

def closeStep (i : ℕ) : Phase → Option (ℕ × CloseStage × Phase)
  | .pruning l (some sid) stale => some (sid,.teardown,.pruning l none stale)
  | .closing l (sid::todo) stage =>
    some (sid,stage,match stage.next with
      | some stage => .closing l (sid::todo) stage
      | none => .closing l todo .turnStates)
  | .closingJoined l sid stage =>
    some (sid,stage,match stage.next with
      | some stage => .closingJoined l sid stage
      | none => .acquiring l.key)
  | .closingCreated exc stage =>
    some (i,stage,match stage.next with
      | some stage => .closingCreated exc stage
      | none => .raised exc)
  | _ => none

def cancelTo : Phase → Option Phase
  | .creating l => some (.failing l .cancelled false)
  | .claiming l | .registering l => some (.failing l .cancelled true)
  | .closing _ [] _ | .returned _ _ | .forwarded _ | .raised _ => none
  | _ => some (.raised .cancelled)

section Step
variable (env : Env) (w : World) (i : ℕ) (run : Running)

def stepAcquire (now : ℤ) : Phase → Option World
  | .acquiring key =>
    if w.lock ≠ none then none
    else match resolveAlias env run.call key w.registry with
      | .again r key => some (w.update i run r (.acquiring key))
      | .proceed r l => some (w.leave i run r (scanFrom r l now r.sessions.rows []))
  | _ => none

def stepScan : Phase → Option World
  | .scanning l now ((key,sid)::rows) stale =>
    let stale := if w.registry.isStale now sid then stale++[key] else stale
    some (w.leave i run w.registry (scanFrom w.registry l now rows stale))
  | _ => none

def stepPrune : Phase → Option World
  | .pruning l none (key::stale) =>
    some (w.leave i run (w.registry.pruneKey key) (.pruning l (w.registry.sessions.get? key) stale))
  | _ => none

def stepSelect (now : ℤ) : Phase → Option World
  | .pruning l none [] =>
    let r := selectExisting env run.call now l w.registry
    some (w.leave i run r.1 r.2)
  | _ => none

def stepOwner (probe : OwnerProbe) : Phase → Option World
  | .owner l =>
    match ownerCheck env run.call l.key probe with
    | .error e => some (w.leave i run w.registry (.raised e))
    | .ok (forward,force) =>
      let r := findInflight env run.call probe.now
        {l with ownerForward := forward,forceDurableTakeover := force} w.inflight w.registry
      some (w.leave i run r.1 r.2)
  | _ => none

def stepRefreshed : Phase → Option World
  | .refreshing l sid =>
    some (w.leave i run w.registry
      (continuityOrCapacity run.call {l with sessionToReturnAfterClose := some sid} w.registry))
  | _ => none

def stepWeigh : Phase → Option World
  | .weighing l [row] idle => some (w.evictFrom i run l (w.registry.weigh row idle))
  | .weighing l (row::rows) idle =>
    some (w.leave i run w.registry (.weighing l rows (w.registry.weigh row idle)))
  | _ => none

def stepClose : Option World :=
  match closeStep i run.phase with
  | none => none
  | some (sid,stage,p) =>
    if w.lock ≠ none && stage ≠ .teardown then none
    else some (w.update i run (World.closeStage w.registry sid stage) p)

def stepJoined (now : ℤ) : Phase → Option World
  | .waitingInflight l f =>
    match (w.futures.get? f).map Future.state with
    | some (.result sid) => some (w.join env i run l sid now)
    | some (.exception e) => some (w.rest i run (.raised e))
    | some .cancelled => some (w.rest i run (.acquiring l.key))
    | _ => none
  | _ => none

def stepCapacity : Phase → Option World
  | .waitingCapacity l f =>
    match (w.futures.get? f).map Future.state with
    | some (.exception (.proxy e)) => some (w.rest i run (.raised (.proxy e)))
    | some .pending | none => none
    | _ => some (w.rest i run (.acquiring l.key))
  | _ => none

def stepDrop : Phase → Option World
  | .dropping l sid retiring =>
    if w.lock ≠ none then none
    else
      let r := (w.registry.popIfSame l.key sid).unregisterTurnStates sid
      if retiring then some (w.update i run r (.acquiring l.key))
      else some (w.update i run (r.markClosed sid) (.closingJoined l sid .turnStates))
  | _ => none

def stepCreated (account : Account) (now : ℤ) : Phase → Option World
  | .creating l =>
    if selectable run.call account then
      let heap := w.registry.heap.set i (newSession run.call l.key account now)
      some (w.update i run {w.registry with heap := heap} (.claiming l))
    else none
  | _ => none

def stepRegistered : Phase → Option World
  | .registering l =>
    if w.lock ≠ none then none
    else
      let r := if w.inflight.get? l.key = l.inflightFuture then w.registry.put l.key i
        else w.registry
      some ((w.completeSlot l (.result i)).update i run r (.returned i (w.accountId i)))
  | _ => none

def stepFailed (exc : Raised) : Phase → Option World
  | .creating l => some (w.rest i run (.failing l exc false))
  | .claiming l => some (w.rest i run (.failing l exc true))
  | _ => none

def stepUnwind : Phase → Option World
  | .failing l exc created =>
    if w.lock ≠ none then none
    else
      some ((w.completeSlot l exc.outcome).rest i run
        (if created then .closingCreated exc .turnStates else .raised exc))
  | _ => none

def stepEnvironment : Event → Option World
  | .session sid u => some {w with registry := w.registry.modify sid (·.apply u)}
  | .registerTurnState sid turnState =>
    if w.lock ≠ none then none
    else some {w with registry := w.registry.registerTurnState sid turnState}
  | .registerPreviousResponseId sid responseId =>
    if w.lock ≠ none then none
    else some {w with
      registry := w.registry.registerPreviousResponseId sid (env.strip responseId)}
  | .closeSession sid stage =>
    if w.lock ≠ none && stage ≠ .teardown then none
    else some {w with registry := World.closeStage w.registry sid stage}
  | .reset sid =>
    if w.lock ≠ none then none
    else match w.registry.heap.get? sid with
      | none => none
      | some s => some {w with registry := w.registry.popIfSame s.key sid}
  | .closeAll =>
    if w.lock ≠ none then none
    else some {w with
      registry := {w.registry with sessions := Dict.empty,previousResponseIndex := Dict.empty}
      inflight := Dict.empty
      futures := w.inflight.rows.foldl
        (fun fs q => World.complete fs q.2 (.exception (.proxy shutdownError))) w.futures}
  | _ => none

/-- A step of call `i`. -/
def stepCall : Event → Option World
  | .register _ ready =>
    match run.phase with
    | .arriving => some (w.rest i run
        (if ready then .acquiring run.call.key else .raised (.proxy registrationError)))
    | _ => none
  | .acquire _ now => stepAcquire env w i run now run.phase
  | .scan _ => stepScan w i run run.phase
  | .prune _ => stepPrune w i run run.phase
  | .select _ now => stepSelect env w i run now run.phase
  | .reused _ =>
    match run.phase with
    | .reusing sid => some (w.leave i run w.registry (.returned sid (w.accountId sid)))
    | _ => none
  | .owner _ probe => stepOwner env w i run probe run.phase
  | .refreshed _ => stepRefreshed w i run run.phase
  | .evict _ =>
    match run.phase with
    | .evicting l => some (w.evict i run l)
    | _ => none
  | .weigh _ => stepWeigh w i run run.phase
  | .close _ => stepClose w i run
  | .closeFailed _ =>
    match closeStep i run.phase with
    | some (_,.teardown,_) => some (w.abort i run (.raised .other))
    | _ => none
  | .proceed _ =>
    match run.phase with
    | .closing l [] _ => some (w.rest i run (dispatch w.registry l))
    | _ => none
  | .capacity _ => stepCapacity w i run run.phase
  | .joined _ now => stepJoined env w i run now run.phase
  | .drop _ => stepDrop w i run run.phase
  | .created _ account now => stepCreated w i run account now run.phase
  | .claimed _ =>
    match run.phase with
    | .claiming l => some (w.rest i run (.registering l))
    | _ => none
  | .registered _ => stepRegistered w i run run.phase
  | .failed _ exc => stepFailed w i run exc run.phase
  | .unwind _ => stepUnwind w i run run.phase
  | .cancel _ =>
    match cancelTo run.phase with
    | some p => some (w.abort i run p)
    | none => none
  | _ => none

def Event.task : Event → Option ℕ
  | .register i _ | .acquire i _ | .scan i | .prune i | .select i _ | .reused i | .owner i _
  | .refreshed i | .evict i | .weigh i | .close i | .closeFailed i | .proceed i | .capacity i
  | .joined i _ | .drop i | .created i _ _ | .claimed i | .registered i | .failed i _ | .unwind i
  | .cancel i => some i
  | _ => none

def step (e : Event) : Option World :=
  match e with
  | .call i c =>
    match w.calls.get? i with
    | none => some {w with calls := w.calls.set i ⟨c,.arriving⟩}
    | some _ => none
  | e =>
    match e.task with
    | none => stepEnvironment env w e
    | some i => (w.calls.get? i).bind fun run => stepCall env w i run e

end Step

end CodexLb.Bridge
