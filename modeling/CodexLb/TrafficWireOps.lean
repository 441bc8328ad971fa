import CodexLb.TrafficSteps
import CodexLb.TrafficOrdered

/-!
# The operations of a session on its sockets

`Session.wire` is the abstract view of a session. Each operation of the code is
an operation of the view, or leaves it alone, so it keeps the view in order
under the condition of that operation.
-/
namespace CodexLb.Traffic

section
variable {F : Type}

def Socket.line (k : Socket) : Line := ⟨k.sent.map Send.request,k.responses⟩

namespace Session

def wire (s : Session F) : Wire where
  ids q := (s.requests.get? q).map Request.responseId
  holds q := (s.requests.get? q).any Request.responseCreateGateAcquired
  draining q := (s.requests.get? q).any Request.drainingUntilTerminal
  pending := s.pending
  gate := s.gate
  lines := s.sockets.map Socket.line
  reader := s.reader
  submits := s.submits.get?
  deliveries := s.deliveries

variable {s : Session F}

theorem current_wire (s : Session F) : s.wire.current = s.upstream := by
  simp only [Wire.current,wire,List.length_map,upstream]

variable {q : RequestId} {r : Request F}

theorem wire_get (h : s.requests.get? q = some r) : s.wire.ids q = some r.responseId ∧
    s.wire.holds q = r.responseCreateGateAcquired ∧ s.wire.draining q = r.drainingUntilTerminal := by
  simp [wire,h]

/-- A write of a request changes what the view says about this request. -/
theorem wire_set (s : Session F) (q : RequestId) (r : Request F) :
    {s with requests := s.requests.set q r}.wire = {s.wire with
      ids := Function.update s.wire.ids q (some r.responseId)
      holds := Function.update s.wire.holds q r.responseCreateGateAcquired
      draining := Function.update s.wire.draining q r.drainingUntilTerminal} := by
  unfold wire
  congr 1
  all_goals
    funext p
    rw [Dict.get?_set,Function.update_apply]
    split_ifs <;> rfl

/-- A change that touches neither the id, nor the gate, nor the drain flag. -/
theorem wire_modify {f : Request F → Request F} (hid : ∀ r, (f r).responseId = r.responseId)
    (hgate : ∀ r, (f r).responseCreateGateAcquired = r.responseCreateGateAcquired)
    (hdrain : ∀ r, (f r).drainingUntilTerminal = r.drainingUntilTerminal) :
    (s.modify q f).wire = s.wire := by
  unfold modify
  cases hq : s.requests.get? q with
  | none => rfl
  | some r =>
    obtain ⟨h₁,h₂,h₃⟩ := wire_get hq
    simp only [wire_set,hid,hgate,hdrain,← h₁,← h₂,← h₃,Function.update_eq_self]

variable {u : ℕ}

theorem map_line_modify {sockets : List Socket} {f : Socket → Socket} {g : Line → Line}
    (h : ∀ k, (f k).line = g k.line) :
    (sockets.modify u f).map Socket.line = (sockets.map Socket.line).modify u g := by
  apply List.ext_getElem?
  intro v
  simp only [List.getElem?_map,List.getElem?_modify]
  cases sockets[v]? with
  | none => rfl
  | some k => by_cases hv : u = v <;> simp [hv,h]

theorem wire_phase (s : Session F) (i : ℕ) (p : SubmitPhase) :
    (s.phase i p).wire = s.wire.phase i p := by
  have h : (s.phase i p).submits.get? = Function.update s.submits.get? i (some p) := by
    funext j
    rw [phase,Dict.get?_set,Function.update_apply]
  unfold wire Wire.phase
  rw [h]
  rfl

theorem wire_releaseGate (s : Session F) (q : RequestId) :
    (s.releaseGate q).wire = s.wire.release q := by
  unfold releaseGate
  cases hq : s.requests.get? q with
  | none =>
    have hholds : s.wire.holds q = false := by simp [wire,hq]
    have hupd : Function.update s.wire.holds q false = s.wire.holds :=
      Function.update_eq_self_iff.mpr hholds.symm
    simp only [Wire.release,hupd,hholds,Bool.false_eq_true,if_false]
  | some r =>
    obtain ⟨h₁,h₂,h₃⟩ := wire_get hq
    have hset := wire_set {s with gate := if r.responseCreateGateAcquired then s.gate+1 else s.gate}
      q {r with awaitingResponseCreated := false,responseCreateGateAcquired := false}
    refine hset.trans ?_
    simp only [← h₁,← h₂,← h₃]
    simp [Wire.release,wire]

theorem wire_create (hid : r.responseId = none) (hgate : r.responseCreateGateAcquired = false)
    (hdrain : r.drainingUntilTerminal = false) (s : Session F) :
    {s with requests := s.requests.set q r}.wire = s.wire.create q := by
  rw [wire_set,hid,hgate,hdrain]
  rfl

theorem wire_write (s : Session F) {m : Message} :
    (s.write u q m).wire = s.wire ∨ (s.write u q m).wire = s.wire.write u q := by
  unfold write
  cases s.requests.get? q with
  | none => exact .inl rfl
  | some r =>
    refine .inr ?_
    unfold Wire.write wire
    congr 1
    exact map_line_modify fun k => by simp only [Socket.line,List.map_append,List.map_cons,
      List.map_nil]

theorem wire_reconnected (s : Session F) (a : String) : (s.reconnected a).wire = s.wire.reopen := by
  simp only [reconnected,wire,Wire.reopen,List.map_append,List.map_cons,List.map_nil,Socket.line]

variable {o : Option Origin}

theorem ordered_put (h : s.wire.Ordered) (ho : ∀ x, o = some x → s.wire.sender x = some q) :
    (s.put q o).wire.Ordered := by
  unfold put
  cases s.requests.get? q with
  | none => exact h
  | some r =>
    dsimp only
    split_ifs
    · exact h.deliver (d := ⟨q,o⟩) ho
    · exact h

theorem ordered_put_local (h : s.wire.Ordered) : (s.put q none).wire.Ordered :=
  ordered_put h nofun

theorem put_frame (s : Session F) (q : RequestId) (o : Option Origin) :
    (s.put q o).wire = {s.wire with deliveries := (s.put q o).deliveries} := by
  unfold put
  cases s.requests.get? q with
  | none => rfl
  | some r =>
    dsimp only
    split_ifs <;> rfl

/-- Requests that are not waiting for a response are failed one after another. -/
theorem ordered_failEach {qs : List RequestId} (h : s.wire.Ordered)
    (hq : ∀ q ∈ qs, q ∈ s.wire.pending → s.wire.ids q ≠ some none)
    (hadm : ∀ q ∈ qs, ∀ i p, s.wire.submits i = some p → p.admitting i ≠ some q) :
    (qs.foldl (fun t q => (t.releaseGate q).put q none) s).wire.Ordered := by
  induction qs generalizing s with
  | nil => exact h
  | cons q qs ih =>
    have hrel : (s.releaseGate q).wire.Ordered := by
      rw [wire_releaseGate]
      exact h.release (hq q (List.mem_cons_self ..)) (hadm q (List.mem_cons_self ..))
    have hframe := put_frame (s.releaseGate q) q none
    rw [wire_releaseGate] at hframe
    refine ih (ordered_put_local hrel) ?_ ?_
    · intro p hp
      rw [hframe]
      exact hq p (List.mem_cons_of_mem _ hp)
    · intro p hp
      rw [hframe]
      exact hadm p (List.mem_cons_of_mem _ hp)

theorem not_admitting_of_pending (h : s.wire.Ordered) (hq : q ∈ s.pending) {i : ℕ}
    {p : SubmitPhase} (hp : s.wire.submits i = some p) : p.admitting i ≠ some q :=
  fun hadm => (h.waiting i p hp q (p.admitting_unqueued hadm)).1 hq

theorem ordered_failQueue (h : s.wire.Ordered)
    (hkeep : s.wire.reader.reads = true → s.wire.unanswered = []) : s.failQueue.wire.Ordered := by
  have hclear : (s.wire.setPending []).Ordered :=
    h.setPending (List.nil_sublist _) fun hr => by rw [hkeep hr]; exact List.nil_subset _
  refine ordered_failEach (s := {s with queuedRequestCount := 0,pending := []}) hclear ?_ ?_
  · exact nofun
  · intro q hq i p hp
    exact not_admitting_of_pending h hq hp

theorem stopReader_releaseGate : (s.releaseGate q).stopReader = s.stopReader.releaseGate q := by
  unfold releaseGate
  rw [show s.stopReader.requests = s.requests from rfl]
  cases s.requests.get? q <;> rfl

theorem stopReader_put : (s.put q o).stopReader = s.stopReader.put q o := by
  unfold put
  rw [show s.stopReader.requests = s.requests from rfl]
  cases s.requests.get? q with
  | none => rfl
  | some r =>
    dsimp only
    split_ifs <;> rfl

theorem failAll_eq : s.failAll = s.stopReader.failQueue := by
  have hfold : ∀ (qs : List RequestId) (t : Session F),
      (qs.foldl (fun t q => (t.releaseGate q).put q none) t).stopReader =
        qs.foldl (fun t q => (t.releaseGate q).put q none) t.stopReader := by
    intro qs
    induction qs with
    | nil => exact fun _ => rfl
    | cons q qs ih =>
      intro t
      rw [List.foldl_cons,List.foldl_cons,ih,stopReader_put,stopReader_releaseGate]
  exact hfold s.pending {s with queuedRequestCount := 0,pending := []}

theorem ordered_failAll (h : s.wire.Ordered) : s.failAll.wire.Ordered := by
  rw [failAll_eq]
  exact ordered_failQueue (s := s.stopReader) h.stop nofun

theorem ordered_stopReader (h : s.wire.Ordered) : s.stopReader.wire.Ordered := h.stop

theorem unanswered_of_retires (h : s.wire.Ordered) (hret : s.retires = true)
    (hr : s.wire.reader.reads = true) : s.wire.unanswered = [] := by
  rw [List.eq_nil_iff_forall_not_mem]
  intro q hq
  obtain ⟨hmem,hid⟩ := (h.opened hr).2 q hq
  simp only [retires,countVisible,Bool.and_eq_true,decide_eq_true_eq,List.length_eq_zero_iff,
    List.filter_eq_nil_iff] at hret
  have hvis := hret.1.2 q hmem
  have hdrain := h.drains q
  simp only [wire] at hid hdrain
  cases hget : s.requests.get? q with
  | none => simp [hget] at hid
  | some r =>
    simp only [hget,Option.any_some,Option.map_some,Request.countsAgainstQueue] at hvis hdrain hid
    simp only [Bool.not_eq_true,Bool.not_eq_false'] at hvis
    exact hdrain hvis hid

theorem ordered_retireIfReady (h : s.wire.Ordered) : s.retireIfReady.wire.Ordered := by
  unfold retireIfReady
  split_ifs with hret
  · refine h.setPending (List.nil_sublist _) ?_
    intro hr
    rw [unanswered_of_retires h hret hr]
    exact List.nil_subset _
  · exact h

theorem ordered_afterMessage (h : s.wire.Ordered) (hr : s.wire.reader.reads = true) :
    s.afterMessage.wire.Ordered := by
  unfold afterMessage
  split_ifs
  · exact (ordered_retireIfReady h).stop
  · exact h.read (fun _ => .inl hr) (fun _ hk => by cases hk) rfl

theorem wire_cleanup (s : Session F) (q : RequestId) :
    (s.cleanup q true true).wire = (s.wire.setPending (s.pending.erase q)).release q :=
  wire_releaseGate _ q

theorem wire_countReplay (s : Session F) (q : RequestId) : (s.countReplay q).wire = s.wire :=
  wire_modify (fun _ => rfl) (fun _ => rfl) fun _ => rfl

theorem wire_recordEvent (s : Session F) (q : Option RequestId) (ev : UpstreamEvent) :
    (s.recordEvent q ev).wire = s.wire := by
  unfold recordEvent
  cases q with
  | none => rfl
  | some q =>
    split_ifs
    · exact wire_modify (fun _ => rfl) (fun _ => rfl) fun _ => rfl
    · rfl

theorem wire_dropAnchor (s : Session F) (q : RequestId) (m : Message) :
    (s.dropAnchor q m).wire = s.wire := by
  apply wire_modify
  all_goals
    intro r
    split_ifs <;> rfl

theorem wire_complete (s : Session F) (ev : UpstreamEvent) (o : Option Origin)
    (t : Option RequestId) : (s.complete ev o t).wire = s.wire := by
  unfold complete
  split
  · rfl
  · split_ifs <;> rfl

end Session

end

end CodexLb.Traffic
