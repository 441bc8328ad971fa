import CodexLb.TrafficSubmits

/-!
# No event of another request, in every run

Every step that meets `Answers` and `Orderly` keeps the sockets in order, so in
every run of such steps each event that is put into a queue belongs to a message
of the request that reads the queue.

`Orderly` cannot be left out. A client that goes away while its message is on
the wire takes its request out of the queue and gives the gate back; the next
request then gets the response that was created for the first one.
-/
namespace CodexLb.Traffic
open Runs Session

section
variable {F : Type} {env : Env F} {s t : Session F} {e : Event F}

theorem readerStep_ordered (h : s.wire.Ordered) (hans : Answers s e) (hord : Orderly s e)
    (hs : ReaderStep s e t) : t.wire.Ordered := by
  have hnone : s.reader.interrupted = none := h.uninterrupted
  have hreads : ∀ r, s.reader = r → r.reads = true → s.wire.reader.reads = true := by
    rintro _ rfl hr
    exact hr
  cases hs with
  | receive hr => exact ordered_receive h (hreads _ hr rfl) hans hord
  | handled hr => exact ordered_finishHandling h hr
  | @disconnected code hr =>
    exact ordered_lost (s := {s with lastUpstreamCloseCode := code}) h
  | timedOut hr => exact ordered_lost h
  | crashed => exact ordered_failAll h
  | @reconnect q k _ a hr hc =>
    rw [hr] at hnone
    have hread : ((s.reconnected a).wire.read
        (.resending q (s.reconnected a).upstream false k)).Ordered := by
      rw [wire_reconnected]
      exact h.reopen.read (fun _ => .inr Wire.unanswered_reopen) (fun _ hk => by cases hk) hnone
    exact hread
  | reconnectFailed hr hc | sendFailed hr =>
    rw [hr] at hnone
    subst hnone
    exact ordered_failAll h
  | @write q u k r hr hq =>
    have hw := ordered_write (m := r.requestText) h (by simpa only [Orderly,hr] using hord)
    rw [hr] at hnone
    refine hw.read (fun _ => .inl ?_) (fun _ hk => by cases hk) hnone
    change (s.write u q r.requestText).reader.reads = true
    rw [reader_write,hr]
    rfl
  | sent hr => exact h.read (fun _ => .inl (hreads _ hr rfl)) (fun _ hk => by cases hk) rfl
  | sentAgain hr =>
    rw [hr] at hnone
    cases hnone

theorem stepSubmit_ordered {i : ℕ} {p : SubmitPhase} (h : s.wire.Ordered) (he : e.submit = some i)
    (hp : s.submits.get? i = some p) (hord : Orderly s e) (hs : stepSubmit env s i p e = some t) :
    t.wire.Ordered := by
  cases e with
  | recover j l => exact stepRecover_ordered h hp hs
  | prewarm j => exact stepPrewarm_ordered h hp hs
  | enter j n => exact stepEnter_ordered h hp hs
  | acquire j => exact stepAcquire_ordered h hp hs
  | admission j a => exact stepAdmission_ordered h hp hs
  | write j =>
    cases he
    exact stepWrite_ordered h hp hord hs
  | sent j => exact stepSent_ordered h hp hs
  | sendFailed j =>
    cases he
    exact stepSendFailed_ordered h hp hord hs
  | warmed j b => exact stepWarmed_ordered h hp hs
  | retry j l =>
    cases he
    exact stepRetry_ordered h hp hord hs
  | registered j => exact stepRegistered_ordered h hs
  | cancel j =>
    cases he
    exact stepCancel_ordered h hp hord hs
  | detach j =>
    cases he
    exact stepDetach_ordered h hord hs
  | _ => cases he

theorem step_ordered [DecidableEq F] (h : s.wire.Ordered) (hans : Answers s e)
    (hord : Orderly s e) (hs : step env s e = some t) : t.wire.Ordered := by
  rcases step_cases env hs with ⟨i,c,-,hs⟩ | ⟨i,m,c,l,a,-,hs⟩ | ⟨-,rfl⟩ | ⟨rfl,rfl⟩ | ⟨-,rfl⟩ |
    ⟨i,p,he,hp,hs⟩ | ⟨-,hs⟩
  · exact stepArrive_ordered h hs
  · exact stepRearrive_ordered h hs
  · exact ordered_retireIfReady h
  · exact ordered_failQueue h hord
  · exact ordered_stopReader h
  · exact stepSubmit_ordered h he hp hord hs
  · exact readerStep_ordered h hans hord hs

variable {a : String} {b : Bool}

theorem ordered_start : (start a b : Session F).wire.Ordered where
  exclusive p q hp := by cases hp
  taken q hq := by cases hq
  permit := le_refl 1
  nodup := List.nodup_nil
  known q hq := by cases hq
  queued q hq := by cases hq
  drains q hq := by cases hq
  waiting i p hp := by cases hp
  admitted i p q hp := by cases hp
  named q x hq := by cases hq
  distinct p q x hp := by cases hp
  counted l hl := by
    rw [List.mem_singleton.mp hl]
    exact le_refl 0
  answered u n l x q hl hx := by
    have hmem := List.mem_singleton.mp (List.mem_of_getElem? hl)
    subst hmem
    cases hx
  opened _ := ⟨Nat.zero_le 1,fun q hq => by cases hq⟩
  handles k hk := by cases hk
  uninterrupted := rfl
  delivered d hd := by cases hd

theorem run_ordered [DecidableEq F] {es : List (Event F)}
    (h : Run (restrict (Steps (step env)) fun s e => Answers s e ∧ Orderly s e) (start a b) es s) :
    s.wire.Ordered :=
  h.invariant (I := fun s => s.wire.Ordered)
    (fun _ _ _ hs hstep => step_ordered hs hstep.1.1 hstep.1.2 hstep.2) (ordered_start)

/-- Every event that was put into a queue answers a message of the request that
reads the queue. -/
theorem deliveries_to_sender [DecidableEq F] {a : String} {b : Bool} {es : List (Event F)}
    (h : Run (restrict (Steps (step env)) fun s e => Answers s e ∧ Orderly s e)
      (start a b) es s) :
    ∀ d ∈ s.deliveries, ∀ o, d.origin = some o →
      (s.sendOf o).map Send.request = some d.request := by
  intro d hd o ho
  have hsender := (run_ordered h).delivered d hd o ho
  simp only [Wire.sender,wire,List.getElem?_map] at hsender
  simp only [sendOf]
  cases hk : s.sockets[o.socket]? with
  | none => simp [hk] at hsender
  | some k => simpa [hk,Socket.line] using hsender

end

def plainEnv : Env (List Item) := ⟨id,fun xs => (xs,0),false⟩

def userItem (body : String) : Item := ⟨.message,false,false,32,body⟩

/-- A request with a text input and nothing known about it. -/
def textRequest (text : String) : ClientRequest (List Item) where
  payload := ⟨none,[userItem text],true⟩
  durable := none
  hardKey := false
  liveLocalSession := true
  forwardsToActiveOwner := false
  preferredAccountId := none

def upstreamEvent (type : EventType) (responseId : Option String) : UpstreamEvent :=
  ⟨type,responseId,false,false,none,[],false,false,false⟩

def sendEvents (i : ℕ) (c : ClientRequest (List Item)) : List (Event (List Item)) :=
  [.arrive i c,.prewarm i,.enter i 8,.acquire i,.admission i .granted,.write i]

/-- Two requests; the first client leaves while the second one is being sent. -/
def servedEvents : List (Event (List Item)) :=
  sendEvents 0 (textRequest "a")++
    [.sent 0,.registered 0,.receive (upstreamEvent .created (some "resp_a")) (some ⟨0,0⟩),.handled]++
    sendEvents 1 (textRequest "b")++
    [.detach 0,.sent 1,.registered 1,.receive (upstreamEvent .created (some "resp_b")) (some ⟨0,1⟩),.handled,
     .receive (upstreamEvent .completed (some "resp_b")) (some ⟨0,1⟩),.handled]

theorem served_client_gets_own_events :
    ∃ s, Run (restrict (Steps (step plainEnv)) fun s e => Answers s e ∧ Orderly s e)
        (start "account" true) servedEvents s ∧
      s.deliveries = [⟨.client 0,some ⟨0,0⟩⟩,⟨.client 1,some ⟨0,1⟩⟩,⟨.client 1,some ⟨0,1⟩⟩] ∧
      ∀ d ∈ s.deliveries, ∀ o, d.origin = some o →
        (s.sendOf o).map Send.request = some d.request :=
  exists_run_with (fun _ hrun hs => ⟨hs,deliveries_to_sender hrun⟩) (by decide +kernel)

/-- The first client is cancelled during its send, and the second one is served. -/
def cancelledEvents : List (Event (List Item)) :=
  sendEvents 0 (textRequest "a")++[.cancel 0]++sendEvents 1 (textRequest "b")++
    [.sent 1,.registered 1,.receive (upstreamEvent .created (some "resp_a")) (some ⟨0,0⟩),.handled]

theorem cancelled_send_misdelivers :
    ∃ s, Run (restrict (Steps (step plainEnv)) Answers) (start "account" true)
        cancelledEvents s ∧
      s.deliveries = [⟨.client 1,some ⟨0,0⟩⟩] ∧
      (s.sendOf ⟨0,0⟩).map Send.request = some (.client 0) :=
  exists_run_of_exec (by decide +kernel)

end CodexLb.Traffic
