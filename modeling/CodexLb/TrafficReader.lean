import CodexLb.TrafficMatching
import CodexLb.TrafficWireOps

/-!
# The reader keeps the sockets in order

What `_process_http_bridge_upstream_text` does with an event whose requests are
the right ones, and when they are: an event without a response id needs that all
pending requests are its own, an event with one is matched by the id. A created
response goes to the holder of the gate.
-/
namespace CodexLb.Traffic

/-- The request has its response, and it sent the message the event answers. -/
def Wire.Owns (w : Wire) (origin : Option Origin) (q : RequestId) : Prop :=
  w.Resolved q ∧ ∀ o, origin = some o → w.sender o = some q

/-- The matching of the event cannot meet a request of another response. -/
inductive Wire.Attributed (w : Wire) (ev : UpstreamEvent) (origin : Option Origin) : Prop
  | anonymous (hid : ev.responseId = none) (hall : ∀ q ∈ w.pending, w.Owns origin q)
  | named {x : String} (hid : ev.responseId = some x)
      (hown : ∀ q, w.ids q = some (some x) → w.Owns origin q)
      (hterm : ev.type.terminal = true → ∃ q ∈ w.pending, w.ids q = some (some x) ∧
        ((ev.previousResponseNotFound || ev.missingToolOutput) = true → w.draining q = false))

namespace Session
variable {F : Type} {s : Session F} {ev : UpstreamEvent} {origin : Option Origin}

variable {status : Option RequestId}

theorem wire_followUp : (s.followUp ev status).1.wire = s.wire := by
  unfold followUp
  split
  · rfl
  · split_ifs <;> rfl

theorem followUp_ne_retry (h : ∀ q, status = some q → s.wire.Resolved q) :
    (s.followUp ev status).2 ≠ .retry := by
  unfold followUp
  cases hr : status.bind s.requests.get? with
  | none => simp
  | some r =>
    obtain ⟨q,hq,hget⟩ := Option.bind_eq_some_iff.mp hr
    obtain ⟨x,hx⟩ := h q hq
    have hid : r.responseId = some x := by simpa [wire,hget] using hx
    have hret : s.retryable r ev = false := by
      simp [retryable,replayable,Request.unresolved,hid]
    simp only [hret,Bool.false_eq_true,if_false]
    split_ifs <;> simp

theorem orElse_resolved {P : RequestId → Prop} {a b : Option RequestId}
    (ha : ∀ q, a = some q → P q) (hb : ∀ q, b = some q → P q) :
    ∀ q, (a.orElse fun _ => b) = some q → P q := by
  intro q hq
  cases a with
  | none => exact hb q hq
  | some p => exact ha q hq

variable {matched terminal : Option RequestId} {grouped : List RequestId}

/-- The reader goes on with an event whose requests are the right ones. -/
theorem ordered_handling {o : Option Origin} {f : Follow} (h : s.wire.Ordered)
    (hr : s.wire.reader.reads = true) (ho : ∀ x, o = some x → origin = some x)
    (hm : ∀ q, matched = some q → s.wire.Owns origin q)
    (ht : ∀ q, terminal = some q → s.wire.Owns origin q)
    (hg : ∀ q ∈ grouped, s.wire.Owns origin q) (hf : f ≠ .retry) :
    (s.wire.read (.handling ⟨ev,o,matched,terminal,grouped,f⟩)).Ordered := by
  refine h.read (fun _ => .inl hr) ?_ rfl
  intro k hk
  cases hk
  refine ⟨hf,fun q hq => (hm q hq).1,fun q hq => (ht q hq).1,fun q hq => (hg q hq).1,?_⟩
  rintro x hx q (hq|hq)
  · exact (hm q hq).2 x (ho x hx)
  · exact (ht q hq).2 x (ho x hx)

theorem ordered_dispatch (h : s.wire.Ordered) (hr : s.wire.reader.reads = true)
    (hm : ∀ q, matched = some q → s.wire.Owns origin q)
    (ht : ∀ q, terminal = some q → s.wire.Owns origin q) :
    (s.dispatch ev origin matched terminal).wire.Ordered := by
  have hstatus := orElse_resolved ht hm
  unfold dispatch
  dsimp only
  split_ifs
  · exact ordered_afterMessage (s := s.requestReconnect false) h hr
  · exact ordered_handling (s := s) h hr (nofun) hm ht
      (nofun) (by simp)
  · have hretry : (s.followUp ev (terminal.orElse fun _ => matched)).2 ≠ .retry :=
      followUp_ne_retry fun q hq => (hstatus q hq).1
    have hread : (s.wire.read (.handling ⟨ev,origin,matched,terminal,[],
        (s.followUp ev (terminal.orElse fun _ => matched)).2⟩)).Ordered :=
      ordered_handling h hr (fun x hx => hx) hm ht (nofun) hretry
    rw [← wire_followUp,← wire_complete _ ev origin terminal] at hread
    exact hread

theorem wire_recordBoth : (s.recordBoth ev matched terminal).wire = s.wire := by
  unfold recordBoth
  split_ifs
  · exact wire_recordEvent ..
  · rw [wire_recordEvent,wire_recordEvent]

theorem ordered_conclude (h : s.wire.Ordered) (hr : s.wire.reader.reads = true)
    (hm : ∀ q, matched = some q → s.wire.Owns origin q)
    (ht : ∀ q, terminal = some q → s.wire.Owns origin q)
    (hg : ∀ q ∈ grouped, s.wire.Owns origin q) :
    (s.conclude ev origin matched terminal grouped).wire.Ordered := by
  unfold conclude
  split_ifs
  · exact ordered_handling (s := s.requestReconnect false) h hr (fun x hx => hx) hm ht hg (by simp)
  · have ht' := orElse_resolved ht fun q hq => hg q (List.mem_of_head? hq)
    rw [← wire_recordBoth] at h hr hm ht'
    exact ordered_dispatch h hr hm ht'

theorem ordered_drop {k : RequestId → Bool} (h : s.wire.Ordered)
    (hdrop : ∀ q, k q = false → s.wire.Resolved q) :
    (s.wire.setPending (s.pending.filter k)).Ordered := by
  refine h.setPending List.filter_sublist ?_
  intro hr q hq
  obtain ⟨hmem,hid⟩ := (h.opened hr).2 q hq
  refine List.mem_filter.mpr ⟨hmem,?_⟩
  by_contra hkeep
  obtain ⟨x,hx⟩ := hdrop q (by simpa using hkeep)
  rw [hid] at hx
  cases hx

/-- Unless a completed event finds its request only now, the request of a
terminal event just leaves the queue. -/
theorem popTerminalState_eq (hset : matched = none → ev.responseId = none) :
    s.popTerminalState ev matched =
      match popTerminal s.pendingStates ev matched with
      | none => (s,matched,none)
      | some q => ({s with pending := s.pending.erase q},matched,some q) := by
  unfold popTerminalState
  cases popTerminal s.pendingStates ev matched with
  | none => rfl
  | some q =>
    cases matched with
    | none =>
      rw [hset rfl]
    | some p => rfl

theorem wire_countTerminal (terminal : Option RequestId) :
    (s.countTerminal terminal).wire = s.wire := by
  unfold countTerminal
  split_ifs <;> rfl

theorem ordered_shareError (h : s.wire.Ordered) (hr : s.wire.reader.reads = true)
    (hm : ∀ q, matched = some q → s.wire.Owns origin q)
    (ht : ∀ q, terminal = some q → s.wire.Owns origin q)
    (hg : ∀ q ∈ grouped, s.wire.Owns origin q) :
    (((s.countTerminal terminal).takeGroup grouped).conclude ev origin matched terminal
      grouped).wire.Ordered := by
  rw [← wire_countTerminal terminal] at h hr hm ht hg
  have hdrop := ordered_drop (k := fun q => q ∉ grouped) h fun q hq =>
    (hg q (by simpa using hq)).1
  exact ordered_conclude (s := (s.countTerminal terminal).takeGroup grouped) hdrop hr hm ht hg

theorem ordered_receiveTerminal (h : s.wire.Ordered) (hr : s.wire.reader.reads = true)
    (hm : ∀ q, matched = some q → s.wire.Owns origin q)
    (hset : matched = none → ev.responseId = none)
    (hpop : ∀ q, popTerminal s.pendingStates ev matched = some q → s.wire.Owns origin q)
    (hgroup : ∀ t : Session F, t.requests = s.requests → t.pending ⊆ s.pending → ∀ q ∈
      t.errorGroup ev (popTerminal s.pendingStates ev matched), s.wire.Owns origin q) :
    (s.receiveTerminal ev origin matched).wire.Ordered := by
  unfold receiveTerminal
  rw [popTerminalState_eq hset]
  cases hp : popTerminal s.pendingStates ev matched with
  | none =>
    rw [hp] at hgroup
    exact ordered_shareError h hr hm (nofun)
      (hgroup s rfl (List.Subset.refl _))
  | some q =>
    rw [hp] at hgroup
    obtain ⟨x,hx⟩ := (hpop q hp).1
    have hdrop : (s.wire.setPending (s.pending.erase q)).Ordered := by
      refine h.setPending List.erase_sublist ?_
      intro hr p hpun
      obtain ⟨hmem,hid⟩ := (h.opened hr).2 p hpun
      refine (List.mem_erase_of_ne ?_).mpr hmem
      rintro rfl
      rw [hid] at hx
      cases hx
    refine ordered_shareError (s := {s with pending := s.pending.erase q}) hdrop hr hm ?_
      (hgroup {s with pending := s.pending.erase q} rfl List.erase_subset)
    rintro _ ⟨rfl⟩
    exact hpop q hp

theorem wire_mark (hev : ev.type ≠ .created) : (s.mark ev matched).wire = s.wire := by
  cases matched with
  | none => rfl
  | some q => exact wire_modify (fun _ => by simp [hev]) (fun _ => rfl) fun _ => rfl

variable {x : String} {q : RequestId}

theorem ids_of_find (h : findByResponseId s.pendingStates x = some q) :
    s.wire.ids q = some (some x) := by
  obtain ⟨r,hmem,hid⟩ := findByResponseId_eq_some h
  simp only [wire,(mem_pendingStates.mp hmem).2,Option.map_some,hid]

theorem find_of_ids (h : s.wire.Ordered) (hq : q ∈ s.pending) (hid : s.wire.ids q = some (some x)) :
    findByResponseId s.pendingStates x = some q := by
  cases hget : s.requests.get? q with
  | none => simp [wire,hget] at hid
  | some r =>
    have hr : r.responseId = some x := by simpa [wire,hget] using hid
    cases hf : findByResponseId s.pendingStates x with
    | none => exact absurd hf (findByResponseId_ne_none (mem_pendingStates.mpr ⟨hq,hget⟩) hr)
    | some p => rw [h.distinct p q x (ids_of_find hf) hid]

variable {r : Request F}

theorem errorGroup_of_counted {t : Session F} (hget : t.requests.get? q = some r)
    (hcont : (ev.previousResponseNotFound || ev.missingToolOutput) = true →
      r.drainingUntilTerminal = false) : t.errorGroup ev (some q) = [] := by
  by_cases hc : (ev.previousResponseNotFound || ev.missingToolOutput) = true
  · simp [errorGroup,hget,Request.countsAgainstQueue,hcont hc]
  · simp only [Bool.not_eq_true] at hc
    simp [errorGroup,hc]

/-- The right requests are found again by the terminal matching. -/
theorem ordered_process (h : s.wire.Ordered) (hr : s.wire.reader.reads = true)
    (ha : s.wire.Attributed ev origin) (hm : ∀ q, matched = some q → s.wire.Owns origin q)
    (hfind : ∀ x q, ev.responseId = some x → q ∈ s.pending → s.wire.ids q = some (some x) →
      matched = some q) : (s.process ev origin matched).wire.Ordered := by
  unfold process
  split_ifs with _ hterm
  · exact ordered_afterMessage h hr
  · cases ha with
    | anonymous hid hall =>
      refine ordered_receiveTerminal h hr hm (fun _ => hid) ?_ ?_
      · exact fun q hq => hall q (pending_of_drawn popTerminal_drawn q hq)
      · exact fun t _ hsub q hq => hall q (hsub (errorGroup_sublist.subset hq))
    | @named x hid hown hex =>
      obtain ⟨q,hq,hidq,hdrain⟩ := hex hterm
      have hmatched := hfind x q hid hq hidq
      have hpop := popTerminal_of_responseId (m := matched) hid (find_of_ids h hq hidq)
      refine ordered_receiveTerminal h hr hm (fun hn => by rw [hmatched] at hn; cases hn) ?_ ?_
      · rw [hpop]
        rintro _ ⟨rfl⟩
        exact hown q hidq
      · intro t hreq _ p hp
        cases hget : s.requests.get? q with
        | none => simp [wire,hget] at hidq
        | some r =>
          rw [hpop,errorGroup_of_counted (hreq ▸ hget)] at hp
          · cases hp
          · intro hc
            simpa [wire,hget] using hdrain hc
  · exact ordered_conclude h hr hm (by simp) (by simp)

theorem wire_observe (hev : ev.type ≠ .created) : (s.observe ev origin).wire = s.wire := by
  have hnote : s.noteResponse ev origin = s.sockets := by
    unfold noteResponse
    split
    · rfl
    · split
      · exact absurd ‹_› hev
      · rfl
  unfold observe
  rw [hnote]
  rfl

theorem ordered_receive_attributed (h : s.wire.Ordered) (hr : s.wire.reader.reads = true)
    (hev : ev.type ≠ .created) (ha : s.wire.Attributed ev origin) :
    (s.receive ev origin).wire.Ordered := by
  have hm : ∀ q, matchEvent s.pendingStates ev = some q → s.wire.Owns origin q := by
    intro q hq
    cases ha with
    | anonymous hid hall => exact hall q (pending_of_drawn matchEvent_drawn q hq)
    | named hid hown _ =>
      simp only [matchEvent,if_neg hev,hid] at hq
      exact hown q (ids_of_find hq)
  have hfind : ∀ x q, ev.responseId = some x → q ∈ s.pending → s.wire.ids q = some (some x) →
      matchEvent s.pendingStates ev = some q := by
    intro x q hid hq hidq
    simp only [matchEvent,if_neg hev,hid]
    exact find_of_ids h hq hidq
  unfold receive
  generalize matchEvent s.pendingStates ev = m at *
  have hwire : ((s.observe ev origin).mark ev m).wire = s.wire := by
    rw [wire_mark hev,wire_observe hev]
  rw [← hwire] at h hr ha hm
  refine ordered_process h hr ha hm ?_
  intro x q hid hq hidq
  change q ∈ ((s.observe ev origin).mark ev m).wire.pending at hq
  rw [hwire] at hq hidq
  exact hfind x q hid hq hidq

variable {o : Origin}

theorem wire_created (hev : ev.type = .created) (hid : ev.responseId = some x)
    (ho : o.socket = s.upstream) (hq : s.requests.get? q = some r) :
    ((s.observe ev (some o)).mark ev (some q)).wire = s.wire.respond x q := by
  obtain ⟨-,h₂,h₃⟩ := wire_get hq
  have hlines : (s.noteResponse ev (some o)).map Socket.line =
      s.wire.lines.modify s.wire.current fun l => {l with responses := l.responses++[x]} := by
    simp only [noteResponse,hev,hid]
    rw [current_wire,← ho]
    exact map_line_modify fun _ => rfl
  unfold mark modify
  simp only [show (s.observe ev (some o)).requests.get? q = some r from hq,wire_set,hev,hid,
    if_true]
  congr 1
  · exact Function.update_eq_self_iff.mpr h₂.symm
  · exact Function.update_eq_self_iff.mpr h₃.symm

theorem ordered_receive_created {l : Line} (h : s.wire.Ordered) (hr : s.wire.reader.reads = true)
    (hev : ev.type = .created) (hid : ev.responseId = some x) (ho : o.socket = s.upstream)
    (hl : s.wire.lines[o.socket]? = some l) (hidx : o.index = l.responses.length)
    (hq : l.sent[o.index]? = some q) (hfresh : ∀ l ∈ s.wire.lines, x ∉ l.responses) :
    (s.receive ev (some o)).wire.Ordered := by
  have hcur : s.wire.lines[s.wire.current]? = some l := by rw [current_wire,← ho,hl]
  have hun : q ∈ s.wire.unanswered := by
    rw [Wire.unanswered,hcur]
    change q ∈ l.sent.drop l.responses.length
    refine List.mem_iff_getElem?.mpr ⟨0,?_⟩
    rw [List.getElem?_drop,Nat.add_zero,← hidx,hq]
  obtain ⟨hpend,hnone⟩ := (h.opened hr).2 q hun
  cases hget : s.requests.get? q with
  | none => simp [wire,hget] at hnone
  | some r =>
  have hrid : r.responseId = none := by simpa [wire,hget] using hnone
  have hdrain : r.drainingUntilTerminal = false := by
    by_contra hd
    exact h.drains q (by simpa [wire,hget] using hd) hnone
  have hnew : ∀ ab ∈ s.pendingStates, ab.2.responseId ≠ some x := by
    rintro ⟨a,b⟩ hab hx
    obtain ⟨k,hk,hxk⟩ := h.named a x (by
      simp only [wire,(mem_pendingStates.mp hab).2,Option.map_some]
      exact congrArg some hx)
    exact hfresh k hk hxk
  obtain ⟨p,r',hassign,hmem,hpid⟩ :=
    assignResponseId_eq_some hnew (mem_pendingStates.mpr ⟨hpend,hget⟩) hrid hdrain
  have hpq : p = q := by
    obtain ⟨hp,hpget⟩ := mem_pendingStates.mp hmem
    exact h.exclusive p q (h.queued p hp (by simp [wire,hpget,hpid])) (h.queued q hpend hnone)
  subst hpq
  have hmatch : matchEvent s.pendingStates ev = some p := by
    rw [matchEvent,if_pos hev,hid,hassign]
  have hwire := wire_created hev hid ho hget
  have hord := h.respond hr hcur (hidx ▸ hq) hfresh
  have hown : (s.wire.respond x p).Owns (some o) p := by
    refine ⟨⟨x,by simp only [Wire.respond,Function.update_self]⟩,?_⟩
    rintro _ ⟨rfl⟩
    rw [Wire.sender_respond,Wire.sender,hl]
    exact hq
  have hreads : (s.wire.respond x p).reader.reads = true := hr
  rw [← hwire] at hord hown hreads
  have hterm : ¬ev.type.terminal = true := by simp [hev,EventType.terminal]
  unfold receive process
  dsimp only
  rw [hmatch,if_neg hterm]
  split_ifs
  · exact ordered_afterMessage hord hreads
  · refine ordered_conclude hord hreads ?_ (by simp) (by simp)
    rintro _ ⟨rfl⟩
    exact hown

end Session

end CodexLb.Traffic
