import CodexLb.TrafficDelivery

/-!
# The submits keep the sockets in order

One theorem for each step of a submit.
-/
namespace CodexLb.Traffic
open SubmitPhase Session

section
variable {F : Type} {env : Env F} {s t : Session F} {i : ℕ} {p : SubmitPhase}

namespace Session

variable (h : s.wire.Ordered)
include h

theorem ordered_phase_done (hun : p.unqueued i = [])
    (hadm : p.admitting i = none) : (s.phase i p).wire.Ordered := by
  rw [wire_phase]
  refine h.phase ?_ ?_
  · intro q hq
    rw [hun] at hq
    cases hq
  · intro q hq
    rw [hadm] at hq
    cases hq

theorem ordered_advance {p' : SubmitPhase} (hp : s.submits.get? i = some p)
    (hsub : p'.unqueued i ⊆ p.unqueued i) (hadm : p'.admitting i = none) :
    (s.phase i p').wire.Ordered := by
  rw [wire_phase]
  exact h.advance hp hsub hadm

omit h in
theorem phase_put {o : Option Origin} : (s.put q o).phase i p = (s.phase i p).put q o := by
  unfold put
  rw [show (s.phase i p).requests = s.requests from rfl]
  cases s.requests.get? q with
  | none => rfl
  | some r =>
    dsimp only
    split_ifs <;> rfl

theorem ordered_checkRetire (hq : .client i ∉ s.wire.pending ∧ s.wire.ids (.client i) = some none) :
    (s.checkRetire i).wire.Ordered := by
  unfold checkRetire
  split_ifs
  · exact ordered_phase_done (ordered_retireIfReady h) rfl rfl
  · rw [wire_phase]
    refine h.phase ?_ nofun
    intro q hmem
    rw [List.mem_singleton.mp hmem]
    exact hq

theorem ordered_submitEntry (hq : .client i ∉ s.wire.pending ∧ s.wire.ids (.client i) = some none) :
    (s.submitEntry i r).wire.Ordered := by
  unfold submitEntry
  split_ifs
  · exact ordered_phase_done h rfl rfl
  · rw [← wire_countReplay s (.client i)] at h hq
    rw [wire_phase]
    refine (ordered_stopReader h).phase ?_ nofun
    intro q hmem
    rw [List.mem_singleton.mp hmem]
    exact hq
  · exact ordered_phase_done h rfl rfl
  · exact ordered_checkRetire h hq

theorem ordered_enter (hnone : s.requests.get? (.client i) = none) (hr : r.New) :
    ({s with requests := s.requests.set (.client i) r}.submitEntry i r).wire.Ordered := by
  have hid : s.wire.ids (.client i) = none := by simp only [wire,hnone,Option.map_none]
  have hout : .client i ∉ s.wire.pending := fun hmem => h.known _ hmem hid
  have hcreate := wire_create (q := .client i) hr.responseId hr.gate hr.draining s
  have hord := h.create hid
  have hfacts : .client i ∉ (s.wire.create (.client i)).pending ∧
      (s.wire.create (.client i)).ids (.client i) = some none :=
    ⟨hout,by simp only [Wire.create,Function.update_self]⟩
  rw [← hcreate] at hord hfacts
  exact ordered_submitEntry hord hfacts

omit h

end Session

theorem stepArrive_ordered [DecidableEq F] {c : ClientRequest F} (h : s.wire.Ordered)
    (hs : stepArrive env s i c = some t) : t.wire.Ordered := by
  unfold stepArrive at hs
  split at hs
  · cases hs
  · cases hs
    rename_i hnone
    exact ordered_enter (s := {s with anchor := adoptAnchor s.anchor (prepareStream env c)})
      h hnone (trimStoredPrefix_new (injectSessionAnchor_new prepareStream_new))

variable {m : Message}

theorem stepRearrive_ordered {c l : List Item} {a : Option String} (h : s.wire.Ordered)
    (hs : stepRearrive env s i m c l a = some t) : t.wire.Ordered := by
  unfold stepRearrive at hs
  split at hs
  · cases hs
  · cases hs
    exact ordered_enter h ‹_› ⟨rfl,rfl,rfl,rfl⟩

namespace Session

theorem ordered_restarted {a : String} (h : s.wire.Ordered) : (s.restarted a).wire.Ordered := by
  have hread : ((s.reconnected a).wire.read .receiving).Ordered := by
    rw [wire_reconnected]
    exact h.reopen.read (fun _ => .inr Wire.unanswered_reopen) (fun _ hk => by cases hk) rfl
  exact hread

end Session

variable (h : s.wire.Ordered)
include h

theorem stepRecover_ordered {l : List ConnectAttempt}
    (hp : s.submits.get? i = some p) (hs : stepRecover s i l p = some t) : t.wire.Ordered := by
  unfold stepRecover at hs
  split at hs
  · split at hs
    · cases hs
      exact ordered_checkRetire (ordered_restarted h)
        (h.waiting i .recovering hp _ (List.mem_singleton_self _))
    · cases hs
      exact ordered_phase_done h rfl rfl
  · cases hs

variable {r : Request F}

theorem startPrewarm_ordered (hp : s.submits.get? i = some .checked)
    (hs : s.startPrewarm env i r = some t) : t.wire.Ordered := by
  unfold startPrewarm at hs
  split_ifs at hs with h₁ h₂ h₃
  · cases hs
    exact ordered_advance h hp (List.Subset.refl _) rfl
  · cases hs
    exact ordered_advance (s := {s with prewarmed := true}) h hp (List.Subset.refl _) rfl
  · cases hs
    have hnone : s.requests.get? (.warmup i) = none := by
      simp only [Bool.or_eq_true,not_or,Bool.not_eq_true,Option.isSome_eq_false_iff,
        Option.isNone_iff_eq_none] at h₂
      exact h₂.2
    have hid : s.wire.ids (.warmup i) = none := by simp only [wire,hnone,Option.map_none]
    rw [wire_phase,wire_create (s := {s with prewarmed := true}) rfl rfl rfl]
    refine (h.create hid).phase ?_ (by rintro _ ⟨⟩)
    intro q hq
    rcases List.mem_cons.mp hq with rfl | hq
    · obtain ⟨hout,hcid⟩ := h.waiting i .checked hp (.client i) (List.mem_singleton_self _)
      exact ⟨hout,Wire.ids_create_of_some hid hcid⟩
    · rw [List.mem_singleton.mp hq]
      exact ⟨fun hmem => h.known _ hmem hid,by simp only [Wire.create,Function.update_self]⟩

theorem stepPrewarm_ordered (hp : s.submits.get? i = some p)
    (hs : stepPrewarm env s i p = some t) : t.wire.Ordered := by
  unfold stepPrewarm at hs
  split at hs
  · obtain ⟨r,-,hs⟩ := Option.bind_eq_some_iff.mp hs
    exact startPrewarm_ordered h hp hs
  · cases hs

theorem stepEnter_ordered {n : ℕ} (hp : s.submits.get? i = some p)
    (hs : stepEnter s i n p = some t) : t.wire.Ordered := by
  unfold stepEnter at hs
  split at hs
  · cases hs
    unfold enterQueue
    split_ifs
    · exact ordered_phase_done h rfl rfl
    · exact ordered_advance (s := {s with queuedRequestCount := s.queuedRequestCount+1}) h
        hp (List.Subset.refl _) rfl
  · cases hs

variable {q : RequestId}

omit h in
theorem wire_acquireGate (hr : s.requests.get? q = some r) (hs : s.acquireGate q = some t) :
    s.gate ≠ 0 ∧ t.wire = s.wire.acquire q := by
  unfold acquireGate at hs
  split_ifs at hs with hgate
  cases hs
  refine ⟨hgate,?_⟩
  obtain ⟨h₁,-,h₃⟩ := wire_get hr
  unfold Session.modify
  simp only [hr,wire_set {s with gate := s.gate-1}]
  congr 1
  · exact Function.update_eq_self_iff.mpr h₁.symm
  · exact Function.update_eq_self_iff.mpr h₃.symm

theorem acquireGate_ordered {p' : SubmitPhase}
    (hp : s.submits.get? i = some p) (hq : q ∈ p.unqueued i) (hsub : p'.unqueued i ⊆ p.unqueued i)
    (hadm : p'.admitting i = some q) (hs : s.acquireGate q = some t) :
    (t.phase i p').wire.Ordered := by
  obtain ⟨r,hr,-⟩ := Option.map_eq_some_iff.mp (h.waiting i p hp q hq).2
  obtain ⟨hgate,hwire⟩ := wire_acquireGate hr hs
  rw [wire_phase,hwire]
  refine (h.acquire hgate).phase (fun a ha => h.waiting i p hp a (hsub ha)) ?_
  intro a ha
  rw [hadm] at ha
  cases ha
  simp only [Wire.acquire,Function.update_self]

theorem stepAcquire_ordered (hp : s.submits.get? i = some p)
    (hs : stepAcquire s i p = some t) : t.wire.Ordered := by
  unfold stepAcquire at hs
  split at hs
  · obtain ⟨t',ht,rfl⟩ := Option.map_eq_some_iff.mp hs
    exact acquireGate_ordered h hp (List.mem_singleton_self _) (List.Subset.refl _) rfl ht
  · obtain ⟨t',ht,rfl⟩ := Option.map_eq_some_iff.mp hs
    exact acquireGate_ordered h hp (by simp [unqueued]) (List.Subset.refl _) rfl ht
  · cases hs

omit h

namespace Session

variable {q : RequestId} {p' : SubmitPhase}

section
variable (h : s.wire.Ordered)
include h

variable (hp : s.submits.get? i = some p)
include hp

/-- A granted admission: the request is queued, and its submit no longer waits. -/
theorem ordered_enqueue (hadm : p.admitting i = some q)
    (hsub : p'.unqueued i ⊆ p.unqueued i) (hq : q ∉ p'.unqueued i) (hnone : p'.admitting i = none) :
    ((s.enqueue q).phase i p').wire.Ordered := by
  have hmem := p.admitting_unqueued hadm
  obtain ⟨hout,hid⟩ := h.waiting i p hp q hmem
  have hphase := h.advance hp hsub hnone
  rw [wire_phase]
  refine hphase.enqueue hout (by
    change s.wire.ids q ≠ none
    rw [hid]
    simp) (h.admitted i p q hp hadm) ?_
  intro j p'' hp''
  by_cases hj : j = i
  · subst hj
    simp only [Wire.phase,Function.update_self,Option.some.injEq] at hp''
    subst hp''
    exact hq
  · exact fun hun => hj ((unqueued_submit hun).symm.trans
      (unqueued_submit hmem))

omit hp in
theorem settled_of_not_pending (hq : q ∉ s.pending) :
    Settled s q := fun hr hmem => hq ((h.opened hr).2 q hmem).1

theorem ordered_withdraw (hsub : p'.unqueued i ⊆ p.unqueued i)
    (hnone : p'.admitting i = none) (hq : q.submit = i) (hset : Settled s q) :
    ((s.cleanup q true true).phase i p').wire.Ordered := by
  rw [wire_phase,wire_cleanup]
  exact h.withdraw hp hsub hnone hq hset

theorem ordered_interrupt {g : SendStage}
    (hsub : p'.unqueued i ⊆ p.unqueued i) (hnone : p'.admitting i = none) (hq : q.submit = i)
    (hout : g = .admitting → q ∉ s.pending) (hset : Settled s q) :
    ((s.interrupt q g).phase i p').wire.Ordered := by
  cases g with
  | waitingGate => exact ordered_advance (s := s.cleanup q false false) h hp hsub hnone
  | admitting =>
    have herase : s.pending.erase q = s.pending := List.erase_of_not_mem (hout rfl)
    have hw := h.withdraw hp hsub hnone hq hset
    rw [show s.wire.pending.erase q = s.pending from herase] at hw
    rw [wire_phase]
    change ((s.releaseGate q).wire.phase i p').Ordered
    rw [wire_releaseGate]
    exact hw
  | sending u b => exact ordered_withdraw h hp hsub hnone hq hset

theorem not_pending_of_admitting (hadm : p.admitting i = some q) : q ∉ s.pending :=
  (h.waiting i p hp q (p.admitting_unqueued hadm)).1

/-- A send that failed for good keeps the order, once its request is settled. -/
theorem ordered_failSend (hset : Settled s (.client i)) : (s.failSend i).wire.Ordered := by
  have hw : ((s.cleanup (.client i) true true).phase i
      (.raised (.proxy sendError))).wire.Ordered :=
    ordered_withdraw h hp (List.nil_subset _) rfl rfl hset
  have hput := ordered_put_local (q := .client i) hw
  rw [← phase_put] at hput
  exact hput

omit hp

end

end Session

section
variable (h : s.wire.Ordered)
include h

variable (hp : s.submits.get? i = some p)
include hp

theorem stepAdmission_ordered {a : Admission}
    (hs : stepAdmission s i a p = some t) : t.wire.Ordered := by
  unfold stepAdmission at hs
  split at hs
  · have hout := not_pending_of_admitting h hp rfl
    split at hs
    · cases hs
      exact ordered_enqueue h hp rfl (List.nil_subset _) (by simp [unqueued]) rfl
    · cases hs
      exact ordered_interrupt h hp (List.nil_subset _) rfl rfl (fun _ => hout)
        (settled_of_not_pending h hout)
  · have hout := not_pending_of_admitting h hp rfl
    have hset := settled_of_not_pending h hout
    split at hs
    · cases hs
      exact ordered_enqueue h hp rfl (by simp [unqueued])
        (by simp [unqueued]) rfl
    · cases hs
      exact ordered_interrupt (g := .admitting) h hp (by simp [unqueued]) rfl
        rfl (fun _ => hout) hset
    · cases hs
      exact ordered_interrupt (g := .admitting) h hp (List.nil_subset _) rfl rfl
        (fun _ => hout) hset
  · cases hs

variable {u : ℕ}

omit hp in
/-- A message that may be written: the gate leaves no other one open. -/
theorem ordered_write (hw : Writable s u q) : (s.write u q m).wire.Ordered := by
  rcases s.wire_write (u := u) (q := q) (m := m) with he | he
  · rw [he]
    exact h
  · rw [he]
    refine h.write fun hu hr => ?_
    rw [current_wire] at hu
    obtain ⟨hq,hid,hout⟩ := hw hu hr
    refine ⟨hq,hid,List.eq_nil_iff_forall_not_mem.mpr fun a ha => ?_⟩
    obtain ⟨hmem,hnone⟩ := (h.opened hr).2 a ha
    have haq := h.exclusive a q (h.queued a hmem hnone) (h.queued q hq hid)
    exact hout (haq ▸ ha)

theorem write_advance {p' : SubmitPhase} (hw : Writable s u q)
    (hsub : p'.unqueued i ⊆ p.unqueued i) (hadm : p'.admitting i = none) :
    ((s.write u q m).phase i p').wire.Ordered := by
  refine ordered_advance (p := p) (ordered_write h hw) ?_ hsub hadm
  rw [submits_write]
  exact hp

theorem stepWrite_ordered (hord : Orderly s (.write i))
    (hs : stepWrite s i p = some t) : t.wire.Ordered := by
  unfold stepWrite at hs
  split at hs
  · obtain ⟨r,-,rfl⟩ := Option.map_eq_some_iff.mp hs
    exact write_advance h hp (hord _ hp _ rfl) (List.Subset.refl _) rfl
  · obtain ⟨r,-,rfl⟩ := Option.map_eq_some_iff.mp hs
    exact write_advance h hp (hord _ hp _ rfl) (List.Subset.refl _) rfl
  · cases hs
    exact write_advance h hp (hord _ hp _ rfl) (List.Subset.refl _) rfl
  · cases hs

theorem stepSent_ordered (hs : stepSent s i p = some t) : t.wire.Ordered := by
  unfold stepSent at hs
  split at hs
  all_goals cases hs
  · exact ordered_phase_done h rfl rfl
  · exact ordered_phase_done h rfl rfl
  · exact ordered_advance h hp (List.Subset.refl _) rfl

theorem sendFailed_ordered (hr : s.requests.get? (.client i) = some r)
    (hset : Settled s (.client i) ∨ s.resends i = true) : (s.sendFailed i r).wire.Ordered := by
  have hfail : s.resends i = false → (s.failSend i).wire.Ordered := by
    intro hres
    rw [hres] at hset
    exact ordered_failSend h hp (hset.resolve_right (by simp))
  unfold sendFailed
  split
  · rename_i m hm
    split_ifs with hmay
    · refine ordered_phase_done ?_ rfl rfl
      refine ordered_stopReader ?_
      rw [wire_countReplay]
      exact h
    · exact hfail (by simp [resends,hr,hm,hmay])
  · rename_i hm
    exact hfail (by simp [resends,hr,hm])

theorem stepSendFailed_ordered (hord : Orderly s (.sendFailed i))
    (hs : stepSendFailed s i p = some t) : t.wire.Ordered := by
  have hset := hord p hp
  unfold stepSendFailed at hs
  split at hs
  · obtain ⟨r,hr,rfl⟩ := Option.map_eq_some_iff.mp hs
    exact sendFailed_ordered h hp hr (by simpa [request,sendsOwn] using hset)
  · cases hs
    exact ordered_withdraw h hp (List.nil_subset _) rfl rfl
      (by simpa [request,sendsOwn] using hset)
  · cases hs
    exact ordered_failSend h hp
      (by simpa [request,sendsOwn] using hset)
  · cases hs

theorem stepWarmed_ordered {b : Bool} (hs : stepWarmed s i b p = some t) : t.wire.Ordered := by
  unfold stepWarmed at hs
  split at hs
  · split_ifs at hs with hmem
    · cases hs
      exact ordered_advance h hp (List.Subset.refl _) rfl
    · cases hs
      exact ordered_withdraw h hp (List.nil_subset _) rfl rfl
        (settled_of_not_pending h hmem)
  · cases hs

theorem stepRetry_ordered {l : List ConnectAttempt}
    (hord : Orderly s (.retry i l)) (hs : stepRetry s i l p = some t) : t.wire.Ordered := by
  unfold stepRetry at hs
  split at hs
  · split at hs
    · cases hs
      refine ordered_phase_done ?_ rfl rfl
      rw [wire_dropAnchor]
      exact ordered_restarted h
    · cases hs
      exact ordered_failSend h hp (hord ‹_›)
  · cases hs

omit hp

end

theorem stepRegistered_ordered (h : s.wire.Ordered) (hs : stepRegistered s i p = some t) :
    t.wire.Ordered := by
  unfold stepRegistered at hs
  split at hs
  · cases hs
    exact ordered_phase_done h rfl rfl
  · cases hs

theorem stepCancel_ordered (h : s.wire.Ordered) (hp : s.submits.get? i = some p)
    (hord : Orderly s (.cancel i)) (hs : stepCancel s i p = some t) : t.wire.Ordered := by
  have hset := hord p hp
  unfold stepCancel at hs
  split at hs
  · cases hs
    refine ordered_interrupt h hp (List.nil_subset _) rfl rfl ?_ (hset rfl)
    rintro rfl
    exact not_pending_of_admitting h hp rfl
  · cases hs
    rename_i stage
    refine ordered_interrupt (g := stage) h hp (List.nil_subset _) rfl rfl ?_ (hset rfl)
    rintro rfl
    exact not_pending_of_admitting h hp rfl
  · cases hs
    exact ordered_withdraw h hp (List.nil_subset _) rfl rfl (hset rfl)
  all_goals cases hs
  all_goals exact ordered_phase_done h rfl rfl

theorem wire_drain (hr : s.requests.get? q = some r) : {s with
      requests := s.requests.set q
        {r with drainingUntilTerminal := true,downstreamVisible := false,eventQueue := false}
      queuedRequestCount := s.queuedRequestCount-1
      control := ⟨true,true⟩}.wire = s.wire.drain q := by
  obtain ⟨h₁,h₂,-⟩ := wire_get hr
  simp only [wire_set {s with
    queuedRequestCount := s.queuedRequestCount-1,control := ⟨true,true⟩}]
  congr 1
  · exact Function.update_eq_self_iff.mpr h₁.symm
  · exact Function.update_eq_self_iff.mpr h₂.symm

theorem detach_ordered (h : s.wire.Ordered) (hq : q ∈ s.pending → s.wire.ids q ≠ some none) :
    (s.detach q).wire.Ordered := by
  unfold detach
  cases hr : s.requests.get? q with
  | none => exact h
  | some r =>
    dsimp only
    split_ifs with hmem
    · simp only [Bool.and_eq_true,decide_eq_true_eq] at hmem
      have hres : s.wire.Resolved q := by
        cases hid : r.responseId with
        | none => exact absurd (by simp [wire,hr,hid]) (hq hmem.1)
        | some x => exact ⟨x,by simp [wire,hr,hid]⟩
      rw [wire_releaseGate,wire_drain hr]
      exact (h.drain hres).release_resolved hres
    · have hmod := wire_modify (s := s) (q := q) (f := fun r => {r with eventQueue := false})
        (fun _ => rfl) (fun _ => rfl) fun _ => rfl
      unfold Session.modify at hmod
      rw [hr] at hmod
      rw [hmod]
      exact h

theorem stepDetach_ordered (h : s.wire.Ordered) (hord : Orderly s (.detach i))
    (hs : stepDetach s i p = some t) : t.wire.Ordered := by
  unfold stepDetach at hs
  split at hs
  all_goals cases hs
  all_goals exact ordered_phase_done (detach_ordered h hord) rfl rfl

end

end CodexLb.Traffic
