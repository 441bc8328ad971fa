import CodexLb.TrafficMatching

/-!
# What a request carries

A request is prepared once; afterwards only its place in the exchange changes.
`Request.static` forgets that place. `Keeps` relates two states of a session
with the same prepared requests, the same messages on the same sockets, the same
account, submits and anchor. The reader, the ends of a submit and everything
that fails requests keep them, except for the bookkeeping of a completed event.
-/
namespace CodexLb.Traffic

section
variable {F : Type}

/-- The request as it was prepared. -/
def Request.static (r : Request F) : Request F :=
  {r with
    responseId := none
    awaitingResponseCreated := true
    eventQueue := true
    replayCount := 0
    responseEventCount := 0
    responseCreateGateAcquired := false
    suppressedDuplicateToolCall := false
    downstreamVisible := false
    drainingUntilTerminal := false}

/-- The request the reader is about to send again. -/
def Reader.target : Reader → Option RequestId
  | .reconnecting q _ | .resending q _ _ _ => some q
  | _ => none

def Socket.traffic (k : Socket) : String × List Send := (k.accountId,k.sent)

namespace Session

def static (s : Session F) (q : RequestId) : Option (Request F) :=
  (s.requests.get? q).map Request.static

def traffic (s : Session F) : List (String × List Send) := s.sockets.map Socket.traffic

structure Keeps (s t : Session F) : Prop where
  static : t.static = s.static
  traffic : t.traffic = s.traffic
  accountId : t.accountId = s.accountId
  submits : t.submits = s.submits
  anchor : t.anchor = s.anchor
  completions : t.completions = s.completions

namespace Keeps
variable {s t u : Session F}

theorem refl (s : Session F) : Keeps s s := ⟨rfl,rfl,rfl,rfl,rfl,rfl⟩

theorem trans (h : Keeps s t) (k : Keeps t u) : Keeps s u where
  static := k.static.trans h.static
  traffic := k.traffic.trans h.traffic
  accountId := k.accountId.trans h.accountId
  submits := k.submits.trans h.submits
  anchor := k.anchor.trans h.anchor
  completions := k.completions.trans h.completions

theorem sendOf (h : Keeps s t) : t.sendOf = s.sendOf := by
  have hline : ∀ (u : Session F) o, u.sendOf o = (u.traffic[o.socket]?).bind fun k =>
      k.2[o.index]? := by
    intro u o
    rw [Session.sendOf,Session.traffic,List.getElem?_map]
    cases u.sockets[o.socket]? <;> rfl
  funext o
  rw [hline,hline,h.traffic]

theorem completion (h : Keeps s t) (ev : UpstreamEvent) (origin : Option Origin) :
    t.completion ev origin = s.completion ev origin := by
  have hstatic : ∀ u : Session F, u.completion ev origin = (ev.responseId.bind fun responseId =>
      ((origin.bind u.sendOf).bind fun m => u.static m.request).map fun r =>
        ⟨responseId,u.accountId,r.clientInput⟩).toList := by
    intro u
    unfold Session.completion
    cases origin.bind u.sendOf with
    | none => cases ev.responseId <;> rfl
    | some m =>
      simp only [Option.bind_some,Session.static]
      cases ev.responseId <;> cases u.requests.get? m.request <;> rfl
  rw [hstatic,hstatic,h.sendOf,h.static,h.accountId]

theorem completedAnchor (h : Keeps s t) : t.completedAnchor = s.completedAnchor := by
  funext ev r
  rw [Session.completedAnchor,Session.completedAnchor,h.anchor]

end Keeps

/-- `Keeps`, and the reader is not touched either. -/
structure Passes (s t : Session F) : Prop extends Keeps s t where
  reader : t.reader = s.reader

theorem Passes.refl (s : Session F) : Passes s s := ⟨.refl s,rfl⟩

variable {t : Session F}

theorem Passes.trans {u : Session F} (h : Passes s t) (k : Passes t u) : Passes s u :=
  ⟨h.toKeeps.trans k.toKeeps,k.reader.trans h.reader⟩

variable {s : Session F} {ev : UpstreamEvent} {origin : Option Origin} {q : RequestId}

theorem static_set {r r' : Request F} (hq : s.requests.get? q = some r)
    (hr : r'.static = r.static) (p : RequestId) :
    ((s.requests.set q r').get? p).map Request.static = s.static p := by
  rw [Dict.get?_set,static]
  split_ifs with hp
  · rw [hp,hq,Option.map_some,Option.map_some,hr]
  · rfl

variable {f : Request F → Request F}

theorem passes_modify (hf : ∀ r, (f r).static = r.static) : Passes s (s.modify q f) := by
  unfold modify
  cases hq : s.requests.get? q with
  | none => exact .refl s
  | some r => exact ⟨⟨funext (static_set hq (hf r)),rfl,rfl,rfl,rfl,rfl⟩,rfl⟩

theorem keeps_modify (hf : ∀ r, (f r).static = r.static) :
    Keeps s (s.modify q f) := (passes_modify hf).toKeeps

section
variable (s) (q : RequestId)

theorem passes_releaseGate : Passes s (s.releaseGate q) := by
  unfold releaseGate
  cases hq : s.requests.get? q with
  | none => exact .refl s
  | some r => exact ⟨⟨funext (static_set hq rfl),rfl,rfl,rfl,rfl,rfl⟩,rfl⟩

theorem passes_put (o : Option Origin) : Passes s (s.put q o) := by
  unfold put
  cases s.requests.get? q with
  | none => exact .refl s
  | some r =>
    dsimp only
    split_ifs
    · exact ⟨⟨rfl,rfl,rfl,rfl,rfl,rfl⟩,rfl⟩
    · exact .refl s

theorem passes_cleanup (gateAcquired enqueued : Bool) :
    Passes s (s.cleanup q gateAcquired enqueued) := by
  have hleave : Passes s {s with
      pending := if enqueued then s.pending.erase q else s.pending
      queuedRequestCount := s.queuedRequestCount-1} := ⟨⟨rfl,rfl,rfl,rfl,rfl,rfl⟩,rfl⟩
  cases gateAcquired with
  | false => exact hleave
  | true => exact hleave.trans (passes_releaseGate _ q)

theorem passes_interrupt (stage : SendStage) : Passes s (s.interrupt q stage) := by
  cases stage with
  | waitingGate => exact passes_cleanup s q false false
  | admitting => exact (passes_releaseGate s q).trans (passes_cleanup _ q false false)
  | sending u b => exact passes_cleanup s q true true

theorem passes_detach : Passes s (s.detach q) := by
  unfold detach
  cases hq : s.requests.get? q with
  | none => exact .refl s
  | some r =>
    dsimp only
    split_ifs
    · refine Passes.trans ?_ (passes_releaseGate _ q)
      exact ⟨⟨funext (static_set hq rfl),rfl,rfl,rfl,rfl,rfl⟩,rfl⟩
    · exact ⟨⟨funext (static_set hq rfl),rfl,rfl,rfl,rfl,rfl⟩,rfl⟩

end

theorem passes_failEach {qs : List RequestId} (s : Session F) :
    Passes s (qs.foldl (fun t q => (t.releaseGate q).put q none) s) := by
  induction qs generalizing s with
  | nil => exact .refl s
  | cons q qs ih => exact ((passes_releaseGate s q).trans (passes_put _ q none)).trans (ih _)

section
variable (s)

theorem passes_failQueue : Passes s s.failQueue := by
  have hclear : Passes s {s with queuedRequestCount := 0,pending := []} := ⟨⟨rfl,rfl,rfl,rfl,rfl,rfl⟩,rfl⟩
  exact hclear.trans (passes_failEach _)

theorem keeps_stopReader : Keeps s s.stopReader := ⟨rfl,rfl,rfl,rfl,rfl,rfl⟩

theorem keeps_failAll : Keeps s s.failAll :=
  (passes_failQueue s).toKeeps.trans (keeps_stopReader _)

theorem passes_retireIfReady : Passes s s.retireIfReady := by
  unfold retireIfReady
  split_ifs
  · exact ⟨⟨rfl,rfl,rfl,rfl,rfl,rfl⟩,rfl⟩
  · exact .refl s

theorem keeps_afterMessage : Keeps s s.afterMessage := by
  unfold afterMessage
  split_ifs
  · obtain ⟨⟨h₁,h₂,h₃,h₄,h₅,h₆⟩,-⟩ := passes_retireIfReady s
    exact ⟨h₁,h₂,h₃,h₄,h₅,h₆⟩
  · exact ⟨rfl,rfl,rfl,rfl,rfl,rfl⟩

theorem keeps_countReplay (q : RequestId) : Keeps s (s.countReplay q) :=
  keeps_modify fun _ => rfl

theorem keeps_startRetry (q : RequestId) (h : Option Handling) : Keeps s (s.startRetry q h) := by
  obtain ⟨h₁,h₂,h₃,h₄,h₅,h₆⟩ := keeps_countReplay s q
  exact ⟨h₁,h₂,h₃,h₄,h₅,h₆⟩

theorem keeps_putTo (o : Option Origin) {q : Option RequestId} : Keeps s (s.putTo o q) := by
  cases q with
  | none => exact .refl s
  | some q => exact (passes_put s q o).toKeeps

theorem keeps_deliver (h : Handling) : Keeps s (s.deliver h) := by
  have hopen : Keeps s (s.openGate h) := by
    unfold openGate
    split
    · exact (passes_releaseGate ..).toKeeps
    · exact .refl s
  have hput : ∀ t : Session F, Keeps t (t.putEvent h) := by
    intro t
    unfold putEvent
    split_ifs
    · exact keeps_putTo ..
    · exact (keeps_putTo ..).trans (keeps_putTo ..)
  have hfinal : ∀ t : Session F, Keeps t (t.finalize h) := by
    intro t
    unfold finalize
    split
    · exact (passes_releaseGate ..).toKeeps
    · exact .refl t
  exact ((hopen.trans (hput _)).trans (hfinal _)).trans (keeps_afterMessage _)

theorem keeps_retryFailed (h : Option Handling) : Keeps s (s.retryFailed h) := by
  cases h with
  | none => exact keeps_failAll s
  | some h =>
    refine Keeps.trans ?_ (keeps_deliver _ _)
    cases h.status with
    | none => exact .refl s
    | some q =>
      change Keeps s (s.dequeue q)
      unfold dequeue
      split_ifs
      · exact ⟨rfl,rfl,rfl,rfl,rfl,rfl⟩
      · exact .refl s

theorem keeps_requeue (q : RequestId) : Keeps s (s.requeue q) := by
  refine Keeps.trans ?_ (keeps_modify fun _ => rfl)
  split_ifs
  · exact .refl s
  · exact ⟨rfl,rfl,rfl,rfl,rfl,rfl⟩

theorem keeps_finishHandling (h : Handling) : Keeps s (s.finishHandling h) := by
  unfold finishHandling
  split
  · exact (passes_failEach s).toKeeps.trans (keeps_afterMessage _)
  · split
    · exact (keeps_requeue ..).trans (keeps_startRetry ..)
    · exact (keeps_requeue ..).trans (keeps_retryFailed ..)
  · exact keeps_deliver s h

theorem keeps_lost : Keeps s s.lost := by
  unfold lost
  split
  · exact keeps_startRetry ..
  · exact keeps_failAll s

theorem keeps_recordEvent (q : Option RequestId) : Keeps s (s.recordEvent q ev) := by
  unfold recordEvent
  cases q with
  | none => exact .refl s
  | some q =>
    split_ifs
    · exact keeps_modify fun _ => rfl
    · exact .refl s

variable (ev)

theorem keeps_recordBoth {a b : Option RequestId} : Keeps s (s.recordBoth ev a b) := by
  unfold recordBoth
  split_ifs
  · exact keeps_recordEvent ..
  · exact (keeps_recordEvent ..).trans (keeps_recordEvent ..)

theorem keeps_followUp {status : Option RequestId} : Keeps s (s.followUp ev status).1 := by
  unfold followUp
  split
  · exact .refl s
  · split_ifs <;> exact ⟨rfl,rfl,rfl,rfl,rfl,rfl⟩

theorem keeps_observe (origin : Option Origin) : Keeps s (s.observe ev origin) := by
  refine ⟨rfl,?_,rfl,rfl,rfl,rfl⟩
  change (s.noteResponse ev origin).map Socket.traffic = s.sockets.map Socket.traffic
  unfold noteResponse
  split
  · rfl
  · split
    · apply List.ext_getElem?
      intro v
      simp only [List.getElem?_map,List.getElem?_modify]
      cases s.sockets[v]? with
      | none => rfl
      | some k => split_ifs <;> rfl
    · rfl

theorem keeps_mark (q : Option RequestId) : Keeps s (s.mark ev q) := by
  cases q with
  | none => exact .refl s
  | some q => exact keeps_modify fun _ => rfl

theorem keeps_popTerminalState (matched : Option RequestId) :
    Keeps s (s.popTerminalState ev matched).1 := by
  have herase : ∀ q, Keeps s {s with pending := s.pending.erase q} :=
    fun q => ⟨rfl,rfl,rfl,rfl,rfl,rfl⟩
  unfold popTerminalState
  split
  · exact .refl s
  · rename_i q _
    dsimp only
    split
    · split_ifs
      · exact (herase q).trans (keeps_modify fun _ => rfl)
      · exact herase q
      · exact herase q
    · exact herase q

theorem keeps_takeGroup (terminal : Option RequestId) {qs : List RequestId} :
    Keeps s ((s.countTerminal terminal).takeGroup qs) := by
  unfold countTerminal
  split_ifs <;> exact ⟨rfl,rfl,rfl,rfl,rfl,rfl⟩

end

/-- What a message of the upstream can do: keep, or complete one request in between.
-/
structure Concludes (s t : Session F) (ev : UpstreamEvent) (origin : Option Origin)
    (terminal : Option RequestId) : Prop where
  exists_state : ∃ s', Keeps s s' ∧ (Keeps s' t ∨ Keeps (s'.complete ev origin terminal) t)

theorem Concludes.of_keeps {terminal : Option RequestId} (h : Keeps s t) :
    Concludes s t ev origin terminal := ⟨t,h,.inl (.refl t)⟩

theorem Concludes.of_none {terminal : Option RequestId} (h : Concludes s t ev origin none) :
    Concludes s t ev origin terminal := by
  obtain ⟨s',hs',ht | ht⟩ := h
  · exact ⟨s',hs',.inl ht⟩
  · exact ⟨s',hs',.inl ht⟩

theorem Concludes.after {s₀ : Session F} {terminal : Option RequestId} (h : Keeps s₀ s)
    (hc : Concludes s t ev origin terminal) : Concludes s₀ t ev origin terminal := by
  obtain ⟨s',hs',ht⟩ := hc
  exact ⟨s',h.trans hs',ht⟩

section
variable (s) (ev) (origin)

theorem concludes_dispatch (matched terminal : Option RequestId) :
    Concludes s (s.dispatch ev origin matched terminal) ev origin terminal := by
  unfold dispatch
  dsimp only
  split_ifs
  · exact .of_keeps (Keeps.trans (t := s.requestReconnect false) ⟨rfl,rfl,rfl,rfl,rfl,rfl⟩
      (keeps_afterMessage _))
  · exact .of_keeps ⟨rfl,rfl,rfl,rfl,rfl,rfl⟩
  · exact ⟨_,keeps_followUp s _,.inr ⟨rfl,rfl,rfl,rfl,rfl,rfl⟩⟩

theorem concludes_conclude (matched terminal : Option RequestId) {grouped : List RequestId} :
    Concludes s (s.conclude ev origin matched terminal grouped) ev origin
      (terminal.orElse fun _ => grouped.head?) := by
  unfold conclude
  split_ifs
  · exact .of_keeps ⟨rfl,rfl,rfl,rfl,rfl,rfl⟩
  · exact (concludes_dispatch _ ev origin matched _).after (keeps_recordBoth ..)

theorem concludes_receiveTerminal (matched : Option RequestId) :
    Concludes s (s.receiveTerminal ev origin matched) ev origin
      ((s.popTerminalState ev matched).2.2.orElse fun _ =>
        ((s.popTerminalState ev matched).1.errorGroup ev
          (s.popTerminalState ev matched).2.2).head?) :=
  (concludes_conclude ..).after ((keeps_popTerminalState s ev matched).trans (keeps_takeGroup ..))

end

variable (s)

/-- The request an event ends, if it ends one. -/
def terminal (ev : UpstreamEvent) (origin : Option Origin) : Option RequestId :=
  let matched := matchEvent s.pendingStates ev
  let p := ((s.observe ev origin).mark ev matched).popTerminalState ev matched
  p.2.2.orElse fun _ => (p.1.errorGroup ev p.2.2).head?

theorem concludes_receive (ev : UpstreamEvent) (origin : Option Origin) :
    Concludes s (s.receive ev origin) ev origin (s.terminal ev origin) := by
  have hmark := (keeps_observe s ev origin).trans
    (keeps_mark _ ev (matchEvent s.pendingStates ev))
  unfold receive process
  dsimp only
  split_ifs
  · exact .of_keeps (hmark.trans (keeps_afterMessage _))
  · exact (concludes_receiveTerminal ..).after hmark
  · exact ((concludes_conclude ..).after hmark).of_none

theorem target_afterMessage : s.afterMessage.reader.target = none := by
  unfold afterMessage
  split_ifs <;> rfl

theorem target_conclude {matched terminal : Option RequestId} {grouped : List RequestId} :
    (s.conclude ev origin matched terminal grouped).reader.target = none := by
  unfold conclude dispatch
  dsimp only
  split_ifs
  · rfl
  · exact target_afterMessage _
  · rfl
  · rfl

/-- No message by itself makes the reader resend. -/
theorem target_receive (ev : UpstreamEvent) (origin : Option Origin) :
    (s.receive ev origin).reader.target = none := by
  unfold receive process
  dsimp only
  split_ifs
  · exact target_afterMessage _
  · exact target_conclude ..
  · exact target_conclude ..

theorem target_retryFailed (h : Option Handling) : (s.retryFailed h).reader.target = none := by
  cases h with
  | none => rfl
  | some h => exact target_afterMessage _

variable {s}

theorem precreatedRetry_eq_some (h : s.precreatedRetry = some q) :
    ∃ r, s.requests.get? q = some r ∧ r.previousResponseId = none := by
  unfold precreatedRetry at h
  split at h
  · cases h
  · rename_i p r hsingle
    split_ifs at h with hc
    cases h
    simp only [Bool.and_eq_true,decide_eq_true_eq] at hc
    have hmem := (List.mem_filter.mp (mem_of_single hsingle)).1
    exact ⟨r,(mem_pendingStates.mp hmem).2,hc.1.1.1.1⟩

theorem target_lost (h : s.lost.reader.target = some q) : s.precreatedRetry = some q := by
  unfold lost at h
  split at h
  · cases h
    assumption
  · cases h

/-- What is resent after a handled event passed the test for that. -/
theorem target_finishHandling {h : Handling} (hq : (s.finishHandling h).reader.target = some q) :
    ∃ p, (s.requeue p).precreatedRetry = some q := by
  unfold finishHandling at hq
  split at hq
  · rw [deliverGroup,target_afterMessage] at hq
    cases hq
  · split at hq
    · cases hq
      exact ⟨_,‹_›⟩
    · rw [target_retryFailed] at hq
      cases hq
  · rw [deliver,target_afterMessage] at hq
    cases hq

end Session

end

end CodexLb.Traffic
