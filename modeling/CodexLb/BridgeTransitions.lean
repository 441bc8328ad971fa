import CodexLb.BridgeFutures

/-!
# What a step of a call can do

Every step of a call as a transition from the await it rests at to the next one,
with the world it leads to and what it found in the world before.
-/
namespace CodexLb.Bridge
open Registry

section
variable (env : Env) (w : World) (i : ℕ) (run : Running)

/-- There is no room, and nothing to evict. -/
def NoRoom (l : Locals) (e : Event) (p : Phase) : Prop :=
  (e = .evict i ∧ p = .evicting l ∧ w.full run.call = true ∧ w.registry.sessions.rows = []) ∨
    e = .weigh i ∧ ∃ row idle, p = .weighing l [row] idle ∧
      w.registry.evictionCandidate (w.registry.weigh row idle) = none

/-- The transitions of call `i`: the event, the await it rests at, the next one and the
world behind it. The hypotheses of a constructor are the tests of the source on that branch. -/
inductive CallStep : Event → Phase → Phase → World → Prop
  | ready : CallStep (.register i true) .arriving (.acquiring run.call.key)
      (w.rest i run (.acquiring run.call.key))
  | unready : CallStep (.register i false) .arriving (.raised (.proxy registrationError))
      (w.rest i run (.raised (.proxy registrationError)))
  | again {now : ℤ} {key k : SessionKey} {r : Registry} (hfree : w.lock = none)
      (halias : resolveAlias env run.call key w.registry = .again r k) :
      CallStep (.acquire i now) (.acquiring key) (.acquiring k) (w.update i run r (.acquiring k))
  | acquired {now : ℤ} {key : SessionKey} {r : Registry} {l : Locals} (hfree : w.lock = none)
      (halias : resolveAlias env run.call key w.registry = .proceed r l) :
      CallStep (.acquire i now) (.acquiring key) (scanFrom r l now r.sessions.rows [])
        (w.leave i run r (scanFrom r l now r.sessions.rows []))
  | scan {l : Locals} {now : ℤ} {key : SessionKey} {sid : ℕ} {rows : List (SessionKey × ℕ)}
      {stale : List SessionKey} :
      CallStep (.scan i) (.scanning l now ((key,sid)::rows) stale)
        (scanFrom w.registry l now rows
          (if w.registry.isStale now sid then stale++[key] else stale))
        (w.leave i run w.registry (scanFrom w.registry l now rows
          (if w.registry.isStale now sid then stale++[key] else stale)))
  | prune {l : Locals} {key : SessionKey} {stale : List SessionKey} :
      CallStep (.prune i) (.pruning l none (key::stale))
        (.pruning l (w.registry.sessions.get? key) stale)
        (w.leave i run (w.registry.pruneKey key) (.pruning l (w.registry.sessions.get? key) stale))
  | select {l : Locals} {now : ℤ} :
      CallStep (.select i now) (.pruning l none []) (selectExisting env run.call now l w.registry).2
        (w.leave i run (selectExisting env run.call now l w.registry).1
          (selectExisting env run.call now l w.registry).2)
  | reused {sid : ℕ} :
      CallStep (.reused i) (.reusing sid) (.returned sid (w.accountId sid))
        (w.leave i run w.registry (.returned sid (w.accountId sid)))
  | ownerFails {l : Locals} {probe : OwnerProbe} {exc : Raised}
      (hcheck : ownerCheck env run.call l.key probe = .error exc) :
      CallStep (.owner i probe) (.owner l) (.raised exc) (w.leave i run w.registry (.raised exc))
  | owner {l : Locals} {probe : OwnerProbe} {forward : Option OwnerForward} {force : Bool}
      (hcheck : ownerCheck env run.call l.key probe = .ok (forward,force)) :
      CallStep (.owner i probe) (.owner l)
        (findInflight env run.call probe.now
          {l with ownerForward := forward,forceDurableTakeover := force} w.inflight w.registry).2
        (w.leave i run
          (findInflight env run.call probe.now
            {l with ownerForward := forward,forceDurableTakeover := force} w.inflight w.registry).1
          (findInflight env run.call probe.now
            {l with ownerForward := forward,forceDurableTakeover := force} w.inflight w.registry).2)
  | refreshed {l : Locals} {sid : ℕ} :
      CallStep (.refreshed i) (.refreshing l sid)
        (continuityOrCapacity run.call {l with sessionToReturnAfterClose := some sid} w.registry)
        (w.leave i run w.registry
          (continuityOrCapacity run.call {l with sessionToReturnAfterClose := some sid} w.registry))
  | weighs {l : Locals} {rows : List (SessionKey × ℕ)} (hfull : w.full run.call = true)
      (hrows : w.registry.sessions.rows = rows) :
      CallStep (.evict i) (.evicting l) (.weighing l rows [])
        (w.leave i run w.registry (.weighing l rows []))
  | inserts {l : Locals} (hroom : w.full run.call = false) :
      CallStep (.evict i) (.evicting l)
        (.closing {l with inflightFuture := some i,ownsCreation := true} l.sessionsToClose
          .turnStates)
        ((w.insertSlot i l.key).leave i run w.registry
          (.closing {l with inflightFuture := some i,ownsCreation := true} l.sessionsToClose
            .turnStates))
  | weigh {l : Locals} {row : SessionKey × ℕ} {rows idle : List (SessionKey × ℕ)} :
      CallStep (.weigh i) (.weighing l (row::rows) idle)
        (.weighing l rows (w.registry.weigh row idle))
        (w.leave i run w.registry (.weighing l rows (w.registry.weigh row idle)))
  | evicts {l : Locals} {row q : SessionKey × ℕ} {idle : List (SessionKey × ℕ)}
      (hcandidate : w.registry.evictionCandidate (w.registry.weigh row idle) = some q) :
      CallStep (.weigh i) (.weighing l [row] idle)
        (.evicting {l with sessionsToClose := l.sessionsToClose++[q.2]})
        (w.leave i run (w.registry.pop q.1)
          (.evicting {l with sessionsToClose := l.sessionsToClose++[q.2]}))
  | noRoomWaits {e : Event} {p : Phase} {l : Locals} {f : ℕ}
      (hnone : NoRoom w i run l e p) :
      CallStep e p (.closing {l with capacityWaitFuture := some f} l.sessionsToClose .turnStates)
        (w.leave i run w.registry
          (.closing {l with capacityWaitFuture := some f} l.sessionsToClose .turnStates))
  | noRoomFails {e : Event} {p : Phase} {l : Locals}
      (hnone : NoRoom w i run l e p) (hinflight : w.inflight.rows = []) :
      CallStep e p (.raised (.proxy noIdleCapacityError))
        (w.leave i run w.registry (.raised (.proxy noIdleCapacityError)))
  | close {p q : Phase} {sid : ℕ} {stage : CloseStage}
      (hclose : closeStep i p = some (sid,stage,q)) :
      CallStep (.close i) p q (w.update i run (World.closeStage w.registry sid stage) q)
  | closeFails {p q : Phase} {sid : ℕ} (hclose : closeStep i p = some (sid,.teardown,q)) :
      CallStep (.closeFailed i) p (.raised .other) (w.abort i run (.raised .other))
  | proceed {l : Locals} {stage : CloseStage} :
      CallStep (.proceed i) (.closing l [] stage) (dispatch w.registry l)
        (w.rest i run (dispatch w.registry l))
  | capacityFails {l : Locals} {f : ℕ} {error : ProxyError} :
      CallStep (.capacity i) (.waitingCapacity l f) (.raised (.proxy error))
        (w.rest i run (.raised (.proxy error)))
  | capacity {l : Locals} {f : ℕ} :
      CallStep (.capacity i) (.waitingCapacity l f) (.acquiring l.key)
        (w.rest i run (.acquiring l.key))
  | joins {now : ℤ} {l : Locals} {f sid : ℕ} {s : Session}
      (hfuture : (w.futures.get? f).map Future.state = some (.result sid))
      (hsession : w.registry.heap.get? sid = some s)
      (hreuse : reusable run.call l.key s = true) :
      CallStep (.joined i now) (.waitingInflight l f) (.returned sid s.account.id)
        (w.update i run (w.registry.modify sid fun s => {s with lastUsedAt := now})
          (.returned sid s.account.id))
  | joinDrops {now : ℤ} {l : Locals} {f sid : ℕ} {s : Session}
      (hfuture : (w.futures.get? f).map Future.state = some (.result sid))
      (hsession : w.registry.heap.get? sid = some s) :
      CallStep (.joined i now) (.waitingInflight l f) (.dropping l sid s.retiringWithVisibleRequests)
        (w.rest i run (.dropping l sid s.retiringWithVisibleRequests))
  | joinAgain {now : ℤ} {l : Locals} {f : ℕ} :
      CallStep (.joined i now) (.waitingInflight l f) (.acquiring l.key)
        (w.rest i run (.acquiring l.key))
  | joinFails {now : ℤ} {l : Locals} {f : ℕ} {exc : Raised} :
      CallStep (.joined i now) (.waitingInflight l f) (.raised exc) (w.rest i run (.raised exc))
  | drops {l : Locals} {sid : ℕ} (hfree : w.lock = none) :
      CallStep (.drop i) (.dropping l sid true) (.acquiring l.key)
        (w.update i run ((w.registry.popIfSame l.key sid).unregisterTurnStates sid)
          (.acquiring l.key))
  | dropCloses {l : Locals} {sid : ℕ} (hfree : w.lock = none) :
      CallStep (.drop i) (.dropping l sid false) (.closingJoined l sid .turnStates)
        (w.update i run (((w.registry.popIfSame l.key sid).unregisterTurnStates sid).markClosed sid)
          (.closingJoined l sid .turnStates))
  | created {l : Locals} {account : Account} {now : ℤ}
      (hselect : selectable run.call account = true) :
      CallStep (.created i account now) (.creating l) (.claiming l)
        (w.update i run {w.registry with
          heap := w.registry.heap.set i (newSession run.call l.key account now)} (.claiming l))
  | claimed {l : Locals} :
      CallStep (.claimed i) (.claiming l) (.registering l) (w.rest i run (.registering l))
  | registered {l : Locals} (hfree : w.lock = none)
      (hslot : w.inflight.get? l.key = l.inflightFuture) :
      CallStep (.registered i) (.registering l) (.returned i (w.accountId i))
        ((w.completeSlot l (.result i)).update i run (w.registry.put l.key i)
          (.returned i (w.accountId i)))
  | registeredLate {l : Locals} (hfree : w.lock = none)
      (hslot : w.inflight.get? l.key ≠ l.inflightFuture) :
      CallStep (.registered i) (.registering l) (.returned i (w.accountId i))
        ((w.completeSlot l (.result i)).update i run w.registry (.returned i (w.accountId i)))
  | createFails {l : Locals} {exc : Raised} :
      CallStep (.failed i exc) (.creating l) (.failing l exc false)
        (w.rest i run (.failing l exc false))
  | claimFails {l : Locals} {exc : Raised} :
      CallStep (.failed i exc) (.claiming l) (.failing l exc true)
        (w.rest i run (.failing l exc true))
  | unwinds {l : Locals} {exc : Raised} (hfree : w.lock = none) :
      CallStep (.unwind i) (.failing l exc false) (.raised exc)
        ((w.completeSlot l exc.outcome).rest i run (.raised exc))
  | unwindCloses {l : Locals} {exc : Raised} (hfree : w.lock = none) :
      CallStep (.unwind i) (.failing l exc true) (.closingCreated exc .turnStates)
        ((w.completeSlot l exc.outcome).rest i run (.closingCreated exc .turnStates))
  | cancel {p q : Phase} (hcancel : cancelTo p = some q) :
      CallStep (.cancel i) p q (w.abort i run q)

/-- The operations that are not part of a lookup: changes of a session by its reader and
its requests, registrations, closing and the shutdown. -/
inductive AmbientStep : Event → World → Prop
  | session {sid : ℕ} {u : SessionUpdate} :
      AmbientStep (.session sid u) {w with registry := w.registry.modify sid (·.apply u)}
  | registerTurnState {sid : ℕ} {turnState : String} (hfree : w.lock = none) :
      AmbientStep (.registerTurnState sid turnState)
        {w with registry := w.registry.registerTurnState sid turnState}
  | registerPreviousResponseId {sid : ℕ} {responseId : String} (hfree : w.lock = none) :
      AmbientStep (.registerPreviousResponseId sid responseId)
        {w with registry := w.registry.registerPreviousResponseId sid (env.strip responseId)}
  | closeSession {sid : ℕ} {stage : CloseStage} :
      AmbientStep (.closeSession sid stage)
        {w with registry := World.closeStage w.registry sid stage}
  | reset {sid : ℕ} {s : Session} (hfree : w.lock = none) :
      AmbientStep (.reset sid) {w with registry := w.registry.popIfSame s.key sid}
  | closeAll (hfree : w.lock = none) :
      AmbientStep .closeAll {w with
        registry := {w.registry with sessions := Dict.empty,previousResponseIndex := Dict.empty}
        inflight := Dict.empty
        futures := w.inflight.rows.foldl
          (fun fs q => World.complete fs q.2 (.exception (.proxy shutdownError))) w.futures}

end

variable {env : Env} {w t : World} {i : ℕ} {run : Running} {e : Event} {p : Phase} {l : Locals}

/-- Without room the call waits for the first creation, or fails if there is none. -/
theorem noRoom_callStep (hnone : NoRoom w i run l e p) :
    ∃ q, CallStep env w i run e p q (w.noRoom i run l) := by
  unfold World.noRoom
  split
  · exact ⟨_,.noRoomWaits hnone⟩
  · rename_i hinflight
    exact ⟨_,.noRoomFails hnone hinflight⟩

/-- A call behind a creation takes its session, drops it, or starts again. -/
theorem join_callStep {f sid : ℕ} {now : ℤ}
    (hfuture : (w.futures.get? f).map Future.state = some (.result sid)) :
    ∃ q, CallStep env w i run (.joined i now) (.waitingInflight l f) q
      (w.join env i run l sid now) := by
  unfold World.join
  split
  · exact ⟨_,.joinAgain⟩
  · rename_i s hs
    split_ifs with hreuse
    · rw [Bool.and_eq_true] at hreuse
      exact ⟨_,.joins hfuture hs hreuse.1⟩
    · exact ⟨_,.joinDrops hfuture hs⟩
    · exact ⟨_,.joinAgain⟩

theorem stepAcquire_callStep {now : ℤ} (ht : stepAcquire env w i run now p = some t) :
    ∃ q, CallStep env w i run (.acquire i now) p q t := by
  unfold stepAcquire at ht
  split at ht
  · split_ifs at ht with hfree
    rw [not_not] at hfree
    split at ht
    · rename_i halias
      cases ht
      exact ⟨_,.again hfree halias⟩
    · rename_i halias
      cases ht
      exact ⟨_,.acquired hfree halias⟩
  · cases ht

theorem stepOwner_callStep {probe : OwnerProbe} (ht : stepOwner env w i run probe p = some t) :
    ∃ q, CallStep env w i run (.owner i probe) p q t := by
  unfold stepOwner at ht
  split at ht
  · split at ht
    · rename_i hcheck
      cases ht
      exact ⟨_,.ownerFails hcheck⟩
    · rename_i hcheck
      cases ht
      exact ⟨_,.owner hcheck⟩
  · cases ht

theorem evict_callStep :
    ∃ q, CallStep env w i run (.evict i) (.evicting l) q (w.evict i run l) := by
  unfold World.evict
  split
  · rename_i hfull hrows
    exact ⟨_,.weighs hfull hrows⟩
  · rename_i hfull hrows
    exact noRoom_callStep (.inl ⟨rfl,rfl,hfull,hrows⟩)
  · rename_i hroom
    exact ⟨_,.inserts hroom⟩

/-- The last row ends the count: a session is evicted, or there is no room. -/
theorem stepWeigh_callStep (ht : stepWeigh w i run p = some t) :
    ∃ q, CallStep env w i run (.weigh i) p q t := by
  unfold stepWeigh at ht
  split at ht
  · rename_i row idle
    cases ht
    unfold World.evictFrom
    split
    · rename_i hcandidate
      exact ⟨_,.evicts hcandidate⟩
    · rename_i hcandidate
      exact noRoom_callStep (.inr ⟨rfl,row,idle,rfl,hcandidate⟩)
  · cases ht
    exact ⟨_,.weigh⟩
  · cases ht

theorem stepClose_callStep (ht : stepClose w i run = some t) :
    ∃ q, CallStep env w i run (.close i) run.phase q t := by
  unfold stepClose at ht
  split at ht
  · cases ht
  · rename_i hclose
    split_ifs at ht
    cases ht
    exact ⟨_,.close hclose⟩

theorem stepCapacity_callStep (ht : stepCapacity w i run p = some t) :
    ∃ q, CallStep env w i run (.capacity i) p q t := by
  unfold stepCapacity at ht
  split at ht
  · split at ht
    · cases ht
      exact ⟨_,.capacityFails⟩
    · cases ht
    · cases ht
    · cases ht
      exact ⟨_,.capacity⟩
  · cases ht

theorem stepJoined_callStep {now : ℤ} (ht : stepJoined env w i run now p = some t) :
    ∃ q, CallStep env w i run (.joined i now) p q t := by
  unfold stepJoined at ht
  split at ht
  · split at ht
    · rename_i hfuture
      cases ht
      exact join_callStep hfuture
    · cases ht
      exact ⟨_,.joinFails⟩
    · cases ht
      exact ⟨_,.joinAgain⟩
    · cases ht
  · cases ht

theorem stepDrop_callStep (ht : stepDrop w i run p = some t) :
    ∃ q, CallStep env w i run (.drop i) p q t := by
  unfold stepDrop at ht
  split at ht
  · split_ifs at ht with hfree hretiring
    · cases ht
      subst hretiring
      exact ⟨_,.drops (not_not.mp hfree)⟩
    · cases ht
      rw [Bool.not_eq_true] at hretiring
      subst hretiring
      exact ⟨_,.dropCloses (not_not.mp hfree)⟩
  · cases ht

theorem stepCreated_callStep {account : Account} {now : ℤ}
    (ht : stepCreated w i run account now p = some t) :
    ∃ q, CallStep env w i run (.created i account now) p q t := by
  unfold stepCreated at ht
  split at ht
  · split_ifs at ht with hselect
    cases ht
    exact ⟨_,.created hselect⟩
  · cases ht

/-- The session enters the table only if the slot still holds the call's future. -/
theorem stepRegistered_callStep (ht : stepRegistered w i run p = some t) :
    ∃ q, CallStep env w i run (.registered i) p q t := by
  unfold stepRegistered at ht
  split at ht
  · simp only [] at ht
    split_ifs at ht with hfree hslot
    · cases ht
      exact ⟨_,.registered (not_not.mp hfree) hslot⟩
    · cases ht
      exact ⟨_,.registeredLate (not_not.mp hfree) hslot⟩
  · cases ht

theorem stepFailed_callStep {exc : Raised} (ht : stepFailed w i run exc p = some t) :
    ∃ q, CallStep env w i run (.failed i exc) p q t := by
  unfold stepFailed at ht
  split at ht
  · cases ht
    exact ⟨_,.createFails⟩
  · cases ht
    exact ⟨_,.claimFails⟩
  · cases ht

theorem stepUnwind_callStep (ht : stepUnwind w i run p = some t) :
    ∃ q, CallStep env w i run (.unwind i) p q t := by
  unfold stepUnwind at ht
  split at ht
  · split_ifs at ht with hfree hcreated
    · cases ht
      subst hcreated
      exact ⟨_,.unwindCloses (not_not.mp hfree)⟩
    · cases ht
      rw [Bool.not_eq_true] at hcreated
      subst hcreated
      exact ⟨_,.unwinds (not_not.mp hfree)⟩
  · cases ht

/-- Every step of a call is one of the transitions from the await it rests at. -/
theorem stepCall_callStep (htask : e.task = some i) (ht : stepCall env w i run e = some t) :
    ∃ q, CallStep env w i run e run.phase q t := by
  cases e with
  | acquire => cases htask; exact stepAcquire_callStep ht
  | owner => cases htask; exact stepOwner_callStep ht
  | weigh => cases htask; exact stepWeigh_callStep ht
  | close => cases htask; exact stepClose_callStep ht
  | capacity => cases htask; exact stepCapacity_callStep ht
  | joined => cases htask; exact stepJoined_callStep ht
  | drop => cases htask; exact stepDrop_callStep ht
  | created => cases htask; exact stepCreated_callStep ht
  | registered => cases htask; exact stepRegistered_callStep ht
  | failed => cases htask; exact stepFailed_callStep ht
  | unwind => cases htask; exact stepUnwind_callStep ht
  | scan | prune | select | reused | refreshed | proceed | claimed =>
    cases htask
    simp only [stepCall,stepScan,stepPrune,stepSelect,stepRefreshed] at ht
    split at ht
    · rename_i hp
      cases ht
      rw [hp]
      exact ⟨_,by constructor⟩
    · cases ht
  | register j ready =>
    cases htask
    simp only [stepCall] at ht
    split at ht
    · rename_i hp
      cases ht
      rw [hp]
      cases ready
      · exact ⟨_,.unready⟩
      · exact ⟨_,.ready⟩
    · cases ht
  | evict j =>
    cases htask
    simp only [stepCall] at ht
    split at ht
    · rename_i hp
      cases ht
      rw [hp]
      exact evict_callStep
    · cases ht
  | closeFailed j =>
    cases htask
    simp only [stepCall] at ht
    split at ht
    · rename_i hclose
      cases ht
      exact ⟨_,.closeFails hclose⟩
    · cases ht
  | cancel j =>
    cases htask
    simp only [stepCall] at ht
    split at ht
    · rename_i hcancel
      cases ht
      exact ⟨_,.cancel hcancel⟩
    · cases ht
  | _ => cases ht

theorem stepEnvironment_ambientStep (ht : stepEnvironment env w e = some t) :
    AmbientStep env w e t := by
  cases e with
  | session sid u =>
    cases ht
    exact .session
  | registerTurnState | registerPreviousResponseId | closeAll =>
    simp only [stepEnvironment] at ht
    split_ifs at ht with hfree
    cases ht
    constructor
    exact not_not.mp hfree
  | closeSession sid stage =>
    simp only [stepEnvironment] at ht
    split_ifs at ht
    cases ht
    exact .closeSession
  | reset sid =>
    simp only [stepEnvironment] at ht
    split_ifs at ht with hfree
    split at ht
    · cases ht
    · cases ht
      exact .reset (not_not.mp hfree)
  | _ => cases ht

/-- A step starts a call, is a transition of a running call, or is one of the
other operations. -/
theorem step_moves (ht : step env w e = some t) : (∃ i c, e = .call i c ∧ w.calls.get? i = none ∧
      t = {w with calls := w.calls.set i ⟨c,.arriving⟩}) ∨
    (∃ i run q, w.calls.get? i = some run ∧ CallStep env w i run e run.phase q t) ∨
    AmbientStep env w e t := by
  unfold step at ht
  split at ht
  · split at ht
    · rename_i i c _ hnew
      cases ht
      exact .inl ⟨i,c,rfl,hnew,rfl⟩
    · cases ht
  · split at ht
    · exact .inr (.inr (stepEnvironment_ambientStep ht))
    · rename_i i htask
      obtain ⟨run,hrun,hstep⟩ := Option.bind_eq_some_iff.mp ht
      obtain ⟨q,hq⟩ := stepCall_callStep htask hstep
      exact .inr (.inl ⟨i,run,q,hrun,hq⟩)

/-- A transition moves its own call and no other. -/
theorem CallStep.calls {q : Phase} (h : CallStep env w i run e p q t) :
    t.calls = w.calls.set i {run with phase := q} := by
  cases h with
  | registered | registeredLate =>
    rw [World.update,(completeSlot_frame w _ _).2.1]
  | unwinds | unwindCloses =>
    rw [World.rest,(completeSlot_frame w _ _).2.1]
  | _ => rfl

theorem AmbientStep.calls (h : AmbientStep env w e t) : t.calls = w.calls := by cases h <;> rfl

end CodexLb.Bridge
