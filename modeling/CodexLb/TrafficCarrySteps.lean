import CodexLb.TrafficCarry

/-!
# Every step carries the requests on

The conditions are collected in `Fits`: an attached request has the property for
the account of the session, at a reconnect every request that is not queued yet
has it for the new account, and the anchor stays right when it changes.
-/
namespace CodexLb.Traffic
open Runs Session

section
variable {F : Type} {env : Env F} {rule : Rule env}
  {s t : Session F} {i : ℕ} {p p' : SubmitPhase}

def Event.connects : Event F → Option (List ConnectAttempt)
  | .recover _ l | .retry _ l | .reconnect l => some l
  | _ => none

/-- The requests waiting may be sent for the account, and the anchor is right for it.
-/
structure Moves (rule : Rule env) (s : Session F) (account : String) : Prop where
  waiting : s.AllWaiting rule.sendable account
  anchored : rule.anchored s.completions s.anchor account

structure Attaches (rule : Rule env) (s : Session F) (r : Request F) : Prop where
  sendable : rule.sendable s.completions r.static s.accountId
  prepared : rule.prepared r.static

def Fits [DecidableEq F] (rule : Rule env) (s : Session F) : Event F → Prop
  | .arrive _ c =>
    Attaches rule s (attachToSession env s.codexSession s.anchor (prepareStream env c)) ∧
      rule.anchored s.completions (adoptAnchor s.anchor (prepareStream env c)) s.accountId
  | .rearrive _ m c l a =>
    Attaches rule s {prepareRequest env m c l with preferredAccountId := a}
  | .recover _ l | .retry _ l | .reconnect l => ∀ b ∈ s.connect l, Moves rule s b
  | .receive ev origin => ev.type = .completed → ∀ r ∈ (s.terminal ev origin).bind s.static,
      rule.anchored (s.completions++s.completion ev origin) (s.completedAnchor ev r) s.accountId
  | _ => True

theorem Session.passes_unwarm (s : Session F) (i : ℕ) :
    s.Passes {s.cleanup (.warmup i) true true with prewarmed := false} :=
  (s.passes_cleanup (.warmup i) true true).trans ⟨⟨rfl,rfl,rfl,rfl,rfl,rfl⟩,rfl⟩

namespace Carried

theorem passes_leave (h : Carried rule s) (hp : s.submits.get? i = some p) (hk : s.Passes t)
    (hnil : p'.unqueued i = []) (hun : p'.unwritten = none)
    (hres : p'.resent = none) : Carried rule (t.phase i p') :=
  (h.passes hk).leave (p := p) (by rw [hk.submits]; exact hp) hnil hun hres

theorem interrupt (h : Carried rule s) (hp : s.submits.get? i = some p) (q : RequestId)
    (stage : SendStage) (e : Bridge.Raised) : Carried rule ((s.interrupt q stage).phase i (.raised e)) :=
  h.passes_leave hp (s.passes_interrupt q stage) rfl rfl rfl

end Carried

theorem carried_checkRetire (h : Carried rule s) (henter : s.static (.client i) ≠ none)
    (hP : ∀ r, s.static (.client i) = some r → rule.sendable s.completions r s.accountId) :
    Carried rule (s.checkRetire i) := by
  unfold checkRetire
  split_ifs
  · have hk := s.passes_retireIfReady
    exact (h.passes hk).raise (by rw [hk.static]; exact henter) _
  · exact h.rest henter (fun _ => hP) rfl rfl

variable {r : Request F}

theorem carried_submitEntry (h : Carried rule s) (henter : s.static (.client i) ≠ none)
    (hP : ∀ r, s.static (.client i) = some r → rule.sendable s.completions r s.accountId) :
    Carried rule (s.submitEntry i r) := by
  unfold submitEntry
  split_ifs
  · exact h.raise henter _
  · have hk := (s.keeps_countReplay (.client i)).trans (keeps_stopReader _)
    refine (h.keeps_quiet hk rfl).rest (by rw [hk.static]; exact henter) (fun _ r hr => ?_) rfl rfl
    rw [hk.static] at hr
    rw [hk.completions,hk.accountId]
    exact hP r hr
  · exact h.raise henter _
  · exact carried_checkRetire h henter hP

theorem carried_enter (h : Carried rule s) (hnone : s.requests.get? (.client i) = none)
    (hc : r.Consistent) (hr : Attaches rule s r) :
    Carried rule ({s with requests := s.requests.set (.client i) r}.submitEntry i r) := by
  have hcreate : Carried rule {s with requests := s.requests.set (.client i) r} :=
    h.create hnone ⟨hc.text,hc.fresh⟩ hr.prepared nofun
  have hstatic : ({s with requests := s.requests.set (.client i) r} : Session F).static (.client i) =
      some r.static := by simp only [static,Dict.get?_set,if_true,Option.map_some]
  refine carried_submitEntry hcreate (by rw [hstatic]; simp) ?_
  intro r' hr'
  rw [hstatic] at hr'
  cases hr'
  exact hr.sendable

theorem carried_restarted (h : Carried rule s) {b : String} (hb : Moves rule s b) :
    Carried rule (s.restarted b) :=
  {h.reconnected hb.waiting hb.anchored with retried := nofun}

variable {l : List ConnectAttempt}

section
variable (h : Carried rule s) (hp : s.submits.get? i = some p)
include h hp

theorem carried_recover (hb : ∀ b, s.connect l = some b → Moves rule s b)
    (hs : stepRecover s i l p = some t) : Carried rule t := by
  unfold stepRecover at hs
  split at hs
  · split at hs
    · rename_i b hc
      cases hs
      exact carried_checkRetire (carried_restarted h (hb b hc)) (h.entered i _ hp) fun r hr =>
        (hb b hc).waiting i _ r hp (List.mem_singleton_self _) hr
    · cases hs
      exact h.leave hp rfl rfl rfl
  · cases hs

theorem carried_prewarm (hs : stepPrewarm env s i p = some t) : Carried rule t := by
  have hk : s.Passes {s with prewarmed := true} := ⟨⟨rfl,rfl,rfl,rfl,rfl,rfl⟩,rfl⟩
  unfold stepPrewarm at hs
  split at hs
  · obtain ⟨r,hr,hs⟩ := Option.bind_eq_some_iff.mp hs
    unfold startPrewarm at hs
    split_ifs at hs with h₁ h₂ h₃
    · cases hs
      exact h.advance hp id rfl fun _ hm => hm
    · cases hs
      exact (h.passes hk).advance hp id rfl fun _ hm => hm
    · cases hs
      have hprev : r.requestText.previousResponseId = none := by
        have hc := (h.prepared (.client i) r.static (by
          rw [static,hr,Option.map_some])).1.text
        simp only [Bool.or_eq_true,not_or,decide_eq_true_eq,ne_eq,not_not] at h₁
        exact hc.trans h₁.1.2
      have hnone : s.requests.get? (.warmup i) = none := by
        simp only [Bool.or_eq_true,not_or,Bool.not_eq_true,Option.isSome_eq_false_iff,
          Option.isNone_iff_eq_none] at h₂
        exact h₂.2
      have htext := @prepareRequest_text F env {r.requestText with generate := false}
        r.requestText.input []
      have hcreate := (h.passes hk).create (q := .warmup i)
        (r := warmupRequest env {r.requestText with generate := false}) hnone
        ⟨htext,by rintro ⟨⟩⟩ (rule.prepared_warmup _) fun _ _ => htext.trans hprev
      exact hcreate.advance hp (fun _ => by simp [SubmitPhase.unqueued]) rfl fun _ hm => hm
  · cases hs

theorem carried_stepEnter {n : ℕ} (hs : stepEnter s i n p = some t) : Carried rule t := by
  unfold stepEnter at hs
  split at hs
  · cases hs
    unfold enterQueue
    split_ifs
    · exact h.leave hp rfl rfl rfl
    · have hk : s.Passes {s with queuedRequestCount := s.queuedRequestCount+1} :=
        ⟨⟨rfl,rfl,rfl,rfl,rfl,rfl⟩,rfl⟩
      exact (h.passes hk).advance hp id rfl fun _ hm => hm
  · cases hs

end

variable {q : RequestId}

section
variable (h : Carried rule s)
include h

theorem carried_acquireGate (hs : s.acquireGate q = some t) :
    Carried rule t ∧ t.submits = s.submits := by
  unfold acquireGate at hs
  split_ifs at hs
  cases hs
  have hgate : s.Passes {s with gate := s.gate-1} := ⟨⟨rfl,rfl,rfl,rfl,rfl,rfl⟩,rfl⟩
  have hk := hgate.trans (passes_modify (q := q) (f := fun r =>
    {r with responseCreateGateAcquired := true,awaitingResponseCreated := true}) fun _ => rfl)
  exact ⟨h.passes hk,hk.submits⟩

theorem carried_acquire (hp : s.submits.get? i = some p) (hs : stepAcquire s i p = some t) :
    Carried rule t := by
  unfold stepAcquire at hs
  split at hs
  · obtain ⟨t',ht,rfl⟩ := Option.map_eq_some_iff.mp hs
    obtain ⟨hc,hsub⟩ := carried_acquireGate h ht
    exact hc.advance (p := .sending .waitingGate) (hsub ▸ hp) id rfl fun _ hm => hm
  · obtain ⟨t',ht,rfl⟩ := Option.map_eq_some_iff.mp hs
    obtain ⟨hc,hsub⟩ := carried_acquireGate h ht
    exact hc.advance (p := .warming .waitingGate) (hsub ▸ hp) id rfl fun _ hm => hm
  · cases hs

/-- A granted admission: the message will be written on the current socket. -/
theorem carried_granted (hp : s.submits.get? i = some (.sending .admitting)) :
    Carried rule ((s.enqueue (.client i)).phase i (.sending (.sending s.upstream false))) := by
  have hk : s.Passes (s.enqueue (.client i)) := ⟨⟨rfl,rfl,rfl,rfl,rfl,rfl⟩,rfl⟩
  refine (h.passes hk).phase (h.entered i _ hp) (nofun) ?_
    nofun
  intro u hu r hr
  cases hu
  have hup := h.upstream
  rw [show s.traffic.length-1 = s.upstream by
    rw [traffic,List.length_map,upstream]] at hup
  obtain ⟨k,hk,ha⟩ := Option.map_eq_some_iff.mp hup
  refine ⟨k,hk,?_⟩
  rw [ha]
  exact h.waiting i _ r hp (List.mem_singleton_self _) hr

theorem carried_admission {a : Admission} (hp : s.submits.get? i = some p)
    (hs : stepAdmission s i a p = some t) : Carried rule t := by
  have hwarm : s.Passes {s.interrupt (.warmup i) .admitting with prewarmed := false} :=
    (s.passes_interrupt (.warmup i) .admitting).trans ⟨⟨rfl,rfl,rfl,rfl,rfl,rfl⟩,rfl⟩
  unfold stepAdmission at hs
  split at hs
  · split at hs
    · cases hs
      exact carried_granted h hp
    · cases hs
      exact h.interrupt hp _ _ _
  · split at hs
    · cases hs
      have hk : s.Passes (s.enqueue (.warmup i)) := ⟨⟨rfl,rfl,rfl,rfl,rfl,rfl⟩,rfl⟩
      exact (h.passes hk).advance hp (fun _ => by simp [SubmitPhase.unqueued]) rfl fun _ hm => hm
    · cases hs
      exact (h.passes hwarm).advance (by rw [hwarm.submits]; exact hp)
        (fun _ => by simp [SubmitPhase.unqueued]) rfl (by rintro _ ⟨⟩)
    · cases hs
      exact h.passes_leave hp hwarm rfl rfl rfl
  · cases hs

theorem carried_write (hp : s.submits.get? i = some p) (hs : stepWrite s i p = some t) :
    Carried rule t := by
  have hsub : ∀ u q m, (s.write u q m).submits.get? i = some p := fun u q m => by
    rw [submits_write,hp]
  unfold stepWrite at hs
  split at hs
  · rename_i u
    obtain ⟨r,hr,rfl⟩ := Option.map_eq_some_iff.mp hs
    refine (h.write ?_).leave (hsub _ _ _) rfl rfl rfl
    intro _ r' hr' k hk
    obtain ⟨k',hk',hP⟩ := h.sending i _ u r' hp rfl hr'
    rw [hk] at hk'
    cases hk'
    rw [static,hr] at hr'
    cases hr'
    exact ⟨hP,rfl⟩
  · obtain ⟨r,hr,rfl⟩ := Option.map_eq_some_iff.mp hs
    refine (h.write ?_).advance (hsub _ _ _) id rfl fun _ hm => hm
    intro hprev
    exact absurd (h.warmup i r.static (by rw [static,hr,Option.map_some])) hprev
  · cases hs
    refine (h.write ?_).advance (hsub _ _ _) id rfl fun _ hm => hm
    intro hprev
    exact absurd (h.resent i _ _ hp rfl) hprev
  · cases hs

theorem carried_sent (hp : s.submits.get? i = some p) (hs : stepSent s i p = some t) :
    Carried rule t := by
  unfold stepSent at hs
  split at hs
  all_goals cases hs
  · exact h.leave hp rfl rfl rfl
  · exact h.leave hp rfl rfl rfl
  · exact h.advance hp id rfl fun _ hm => hm

theorem carried_failSend (hp : s.submits.get? i = some p) : Carried rule (s.failSend i) := by
  have hk : s.Passes {(s.cleanup (.client i) true true).put (.client i) none with closed := true} :=
    ((s.passes_cleanup (.client i) true true).trans (passes_put _ _ _)).trans
      ⟨⟨rfl,rfl,rfl,rfl,rfl,rfl⟩,rfl⟩
  exact h.passes_leave hp hk rfl rfl rfl

end

/-- What is sent again after a failure names no previous response. -/
theorem retryText_unanchored {m : Message} (h : r.Consistent)
    (hm : retryText r r.requestText = some m) : m.previousResponseId = none := by
  unfold retryText at hm
  split at hm
  · cases hm
    rw [h.text]
    assumption
  · split_ifs at hm with hsafe
    simp only [Bool.and_eq_true] at hsafe
    exact h.fresh hsafe.1 m hm

section
variable (h : Carried rule s) (hp : s.submits.get? i = some p)
include h hp

theorem carried_sendFailed (hs : stepSendFailed s i p = some t) : Carried rule t := by
  unfold stepSendFailed at hs
  split at hs
  · obtain ⟨r,hr,rfl⟩ := Option.map_eq_some_iff.mp hs
    have hc : r.Consistent := by
      have hstatic := (h.prepared (.client i) r.static (by
        rw [static,hr,Option.map_some])).1
      exact ⟨hstatic.text,hstatic.fresh⟩
    unfold sendFailed
    split
    · rename_i m hm
      split_ifs
      · have hk := (s.keeps_countReplay (.client i)).trans (keeps_stopReader _)
        refine (h.keeps_quiet hk rfl).phase (by rw [hk.static]; exact h.entered i _ hp) ?_ ?_ ?_
        · rintro ⟨⟩
        · rintro _ ⟨⟩
        · rintro _ ⟨rfl⟩
          exact retryText_unanchored hc hm
      · exact carried_failSend h hp
    · exact carried_failSend h hp
  · cases hs
    exact h.passes_leave hp (s.passes_unwarm i) rfl rfl rfl
  · cases hs
    exact carried_failSend h hp
  · cases hs

theorem carried_warmed {b : Bool} (hs : stepWarmed s i b p = some t) : Carried rule t := by
  unfold stepWarmed at hs
  split at hs
  · split_ifs at hs
    · cases hs
      exact h.advance hp id rfl fun _ hm => hm
    · cases hs
      exact h.passes_leave hp (s.passes_unwarm i) rfl rfl rfl
  · cases hs

theorem carried_retry (hb : ∀ b, s.connect l = some b → Moves rule s b)
    (hs : stepRetry s i l p = some t) : Carried rule t := by
  unfold stepRetry at hs
  split at hs
  · rename_i m
    split at hs
    · rename_i b hc
      cases hs
      have hre := carried_restarted h (hb b hc)
      have hp' : (s.restarted b).submits.get? i = some (.retrying m) := hp
      refine (hre.dropAnchor hp' rfl rfl rfl).advance (p := .retrying m) ?_ id rfl
        fun m hm => hm
      unfold dropAnchor Session.modify
      split <;> exact hp'
    · cases hs
      exact carried_failSend h hp
  · cases hs

theorem carried_registered (hs : stepRegistered s i p = some t) : Carried rule t := by
  unfold stepRegistered at hs
  split at hs
  · cases hs
    exact h.leave hp rfl rfl rfl
  · cases hs

theorem carried_cancel (hs : stepCancel s i p = some t) : Carried rule t := by
  unfold stepCancel at hs
  split at hs
  · cases hs
    exact h.interrupt hp _ _ _
  · rename_i stage
    cases hs
    exact h.passes_leave hp
      ((s.passes_interrupt (.warmup i) stage).trans ⟨⟨rfl,rfl,rfl,rfl,rfl,rfl⟩,rfl⟩) rfl rfl rfl
  · cases hs
    exact h.passes_leave hp (s.passes_unwarm i) rfl rfl rfl
  all_goals cases hs
  all_goals exact h.leave hp rfl rfl rfl

theorem carried_detach (hs : stepDetach s i p = some t) : Carried rule t := by
  unfold stepDetach at hs
  split at hs
  all_goals cases hs
  all_goals exact h.passes_leave hp (s.passes_detach _) rfl rfl rfl

end

variable {e : Event F}

theorem carried_submit (h : Carried rule s) (he : e.submit = some i)
    (hp : s.submits.get? i = some p)
    (hb : ∀ l b, e.connects = some l → s.connect l = some b → Moves rule s b)
    (hs : stepSubmit env s i p e = some t) : Carried rule t := by
  cases e with
  | recover j l => exact carried_recover h hp (hb l · rfl) hs
  | prewarm j => exact carried_prewarm h hp hs
  | enter j n => exact carried_stepEnter h hp hs
  | acquire j => exact carried_acquire h hp hs
  | admission j a => exact carried_admission h hp hs
  | write j => exact carried_write h hp hs
  | sent j => exact carried_sent h hp hs
  | sendFailed j => exact carried_sendFailed h hp hs
  | warmed j b => exact carried_warmed h hp hs
  | retry j l => exact carried_retry h hp (hb l · rfl) hs
  | registered j => exact carried_registered h hp hs
  | cancel j => exact carried_cancel h hp hs
  | detach j => exact carried_detach h hp hs
  | _ => cases he

theorem unanchored_of_precreatedRetry (h : Carried rule s) (hk : s.Keeps t)
    (hq : t.precreatedRetry = some q) : ∃ r, s.static q = some r ∧
      r.requestText.previousResponseId = none := by
  obtain ⟨r,hr,hprev⟩ := precreatedRetry_eq_some hq
  have hstatic : s.static q = some r.static := by
    rw [← hk.static,static,hr,Option.map_some]
  exact ⟨r.static,hstatic,(h.prepared q r.static hstatic).1.text.trans hprev⟩

theorem carried_lost (h : Carried rule s) : Carried rule s.lost :=
  h.keeps s.keeps_lost fun _ hq =>
    unanchored_of_precreatedRetry h (.refl s) (target_lost hq)

theorem carried_reader (h : Carried rule s)
    (ha : ∀ ev o, e = .receive ev o → ev.type = .completed → ∀ r ∈ (s.terminal ev o).bind
      s.static, rule.anchored (s.completions++s.completion ev o) (s.completedAnchor ev r)
      s.accountId) (hb : ∀ l b, e.connects = some l → s.connect l = some b → Moves rule s b)
    (hs : ReaderStep s e t) : Carried rule t := by
  cases hs with
  | @receive ev o hr =>
    refine ⟨h.toSendable.concludes (ha ev o rfl) (s.concludes_receive ev o),fun q hq => ?_⟩
    rw [target_receive] at hq
    cases hq
  | @handled k hr =>
    refine h.keeps (s.keeps_finishHandling k) fun q hq => ?_
    obtain ⟨p,hp⟩ := target_finishHandling hq
    exact unanchored_of_precreatedRetry h (s.keeps_requeue p) hp
  | @disconnected code hr =>
    have hk : s.Passes {s with lastUpstreamCloseCode := code} := ⟨⟨rfl,rfl,rfl,rfl,rfl,rfl⟩,rfl⟩
    exact carried_lost (h.passes hk)
  | timedOut hr => exact carried_lost h
  | crashed => exact h.keeps_quiet s.keeps_failAll rfl
  | @reconnect q k l b hr hc =>
    have hm := hb l b rfl hc
    refine {h.reconnected hm.waiting hm.anchored with retried := fun p hp => ?_}
    exact h.retried p (by rw [hr]; exact hp)
  | @reconnectFailed q k l hr hc | @sendFailed q u b k hr =>
    exact h.keeps_quiet (s.keeps_retryFailed k) (target_retryFailed ..)
  | @write q u k r hr hq =>
    have hnone : r.requestText.previousResponseId = none := by
      obtain ⟨r',hr',hprev⟩ := h.retried q (by rw [hr]; rfl)
      rw [static,hq] at hr'
      cases hr'
      exact hprev
    have hw := h.write (u := u) (q := q) (m := r.requestText) fun hprev => absurd hnone hprev
    refine {hw with retried := fun p hp => ?_}
    refine hw.retried p ?_
    rw [reader_write,hr]
    exact hp
  | sent hr => exact h.keeps_quiet ⟨rfl,rfl,rfl,rfl,rfl,rfl⟩ rfl
  | sentAgain hr => exact h.keeps_quiet s.keeps_afterMessage s.target_afterMessage

section
variable [DecidableEq F]

theorem carried_arrive {c : ClientRequest F} (h : Carried rule s) (hf : Fits rule s (.arrive i c))
    (hs : stepArrive env s i c = some t) : Carried rule t := by
  unfold stepArrive at hs
  split at hs
  · cases hs
  · rename_i hnone
    cases hs
    have hadopt : Carried rule {s with anchor := adoptAnchor s.anchor (prepareStream env c)} :=
      {h with anchored := hf.2}
    exact carried_enter hadopt hnone (attachToSession_consistent ..) ⟨hf.1.sendable,hf.1.prepared⟩

theorem carried_rearrive {m : Message} {c l : List Item} {a : Option String}
    (h : Carried rule s) (hf : Fits rule s (.rearrive i m c l a))
    (hs : stepRearrive env s i m c l a = some t) : Carried rule t := by
  unfold stepRearrive at hs
  split at hs
  · cases hs
  · cases hs
    exact carried_enter h ‹_› ⟨prepareRequest_text m c l,nofun⟩ hf

theorem step_carried (h : Carried rule s) (hf : Fits rule s e) (hs : step env s e = some t) :
    Carried rule t := by
  have hb : ∀ l b, e.connects = some l → s.connect l = some b → Moves rule s b := by
    intro l b hl
    cases e <;> cases hl <;> exact hf b
  rcases step_cases env hs with ⟨i,c,rfl,hs⟩ | ⟨i,m,c,l,a,rfl,hs⟩ | ⟨-,rfl⟩ | ⟨-,rfl⟩ | ⟨-,rfl⟩ |
    ⟨i,p,he,hp,hs⟩ | ⟨-,hs⟩
  · exact carried_arrive h hf hs
  · exact carried_rearrive h hf hs
  · exact h.passes s.passes_retireIfReady
  · exact h.passes s.passes_failQueue
  · exact h.keeps_quiet s.keeps_stopReader rfl
  · exact carried_submit h he hp hb hs
  · refine carried_reader h ?_ hb hs
    rintro ev o rfl
    exact hf

end

theorem carried_start {a : String} (b : Bool) (ha : rule.anchored [] .empty a) :
    Carried rule (start a b) where
  anchored := ha
  upstream := rfl
  entered i p hp := by cases hp
  prepared q r hr := by cases hr
  warmup i r hr := by cases hr
  waiting i p r hp := by cases hp
  sending i p u r hp := by cases hp
  resent i p m hp := by cases hp
  retried q hq := by cases hq
  sent k hk m hm := by
    rw [List.mem_singleton.mp hk] at hm
    cases hm

end

end CodexLb.Traffic
