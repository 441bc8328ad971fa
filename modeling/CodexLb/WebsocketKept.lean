import CodexLb.WebsocketLoop

/-!
# What the upstream reader keeps

The functions of the reader take requests out of the queue, hold them while they
finalise or fail them, and release the gate for them. `Kept` says for each of
them that a holder of the gate it had before is one it still has, that it leaves
every other holder alone, and that it runs on. The one exception is a request
that is parked for a replay.
-/
namespace CodexLb.WebsocketProxy
open Traffic

namespace Connection
variable {F : Type} {setup : Setup F} {s t : Connection F}

/-- What the reader has taken out of the queue and not released. -/
def hand (s : Connection F) : List RequestId := (s.upstream.map (·.reader.hand)).getD []

def Running (s : Connection F) : Prop := ∃ u, s.upstream = some u ∧ u.reader ≠ .done

def Mine (s : Connection F) (q : RequestId) : Prop := q ∈ s.pending ∨ q ∈ s.hand

/-- The reader runs on. Whatever holds the gate has held it before, and the
reader still has it, if it was in the queue or among the `extra` requests in
transit; anything else it leaves as it was. -/
structure Kept (extra : List RequestId) (s t : Connection F) : Prop where
  loop : t.loop = s.loop
  running : t.Running
  covered : ∀ p, t.book.holder = some p → s.book.holder = some p ∧
    (p ∈ s.pending ∨ p ∈ extra → t.Mine p)
  frame : ∀ p, p ∉ s.pending → p ∉ extra → (s.book.holder = some p → t.book.holder = some p) ∧
    ¬ t.Mine p

variable {extra : List RequestId} {q : RequestId}

theorem Kept.of_release (h : Kept extra (s.release q) t) : Kept (q::extra) s t := by
  have hholder : (s.release q).book.holder =
    if s.book.holder = some q then none else s.book.holder := s.book.holder_release q
  refine ⟨h.loop,h.running,?_,?_⟩
  · intro p hp
    obtain ⟨hs,hmine⟩ := h.covered p hp
    rw [hholder] at hs
    split_ifs at hs with hq
    refine ⟨hs,fun hmem => hmine (hmem.imp_right fun hmem => ?_)⟩
    refine (List.mem_cons.mp hmem).resolve_left ?_
    rintro rfl
    exact hq hs
  · intro p hpending hextra
    rw [List.mem_cons,not_or] at hextra
    obtain ⟨hkeep,hmine⟩ := h.frame p hpending hextra.2
    refine ⟨fun hp => hkeep ?_,hmine⟩
    rw [hholder,if_neg]
    · exact hp
    · rw [hp]
      exact fun heq => hextra.1 (Option.some.inj heq)

theorem Kept.absorb (h : Kept (q::extra) s t) (hq : q ∈ s.pending) : Kept extra s t where
  loop := h.loop
  running := h.running
  covered := by
    intro p hp
    refine ⟨(h.covered p hp).1,fun hmem => (h.covered p hp).2 ?_⟩
    exact hmem.imp_right (List.mem_cons_of_mem q)
  frame := by
    intro p hpending hextra
    refine h.frame p hpending fun hmem => ?_
    rcases List.mem_cons.mp hmem with rfl | hmem
    · exact hpending hq
    · exact hextra hmem

theorem kept_requestReconnect (h : Kept extra s.requestReconnect t) : Kept extra s t where
  loop := h.loop
  running := h.running
  covered := h.covered
  frame := h.frame

section Reader
variable {u : Upstream} (hu : s.upstream = some u)
include hu

theorem hand_read (r : Reader) : (s.read r).hand = r.hand := by simp [hand,read,hu]

variable {r : Reader}

theorem running_read (hr : r ≠ .done) : (s.read r).Running :=
  ⟨{u with reader := r},by simp [read,hu],hr⟩

theorem kept_read (hr : r ≠ .done) : Kept r.hand s (s.read r) where
  loop := rfl
  running := running_read hu hr
  covered := by
    intro p hp
    refine ⟨hp,fun h => ?_⟩
    rw [Mine,hand_read hu]
    exact h
  frame := by
    intro p hpending hextra
    refine ⟨id,?_⟩
    rw [Mine,hand_read hu]
    exact fun h => h.elim hpending hextra

theorem kept_self (hr : u.reader ≠ .done) : Kept s.hand s s where
  loop := rfl
  running := ⟨u,hu,hr⟩
  covered := fun _ hp => ⟨hp,id⟩
  frame := fun _ hpending hhand => ⟨id,fun h => h.elim hpending hhand⟩

theorem kept_release_read (hr : r ≠ .done) (q : RequestId) :
    Kept (q::r.hand) s ((s.release q).read r) :=
  (kept_read (s := s.release q) hu hr).of_release

theorem upstream_requestReconnect : s.requestReconnect.upstream =
    some {u with control := {u.control with reconnectRequested := true}} := by
  simp [requestReconnect,hu]

theorem kept_afterMessage : Kept [] s s.afterMessage := by
  unfold afterMessage
  split_ifs
  · exact kept_read (r := .closing) hu (by decide)
  · exact kept_read (r := .receiving) hu (by decide)

theorem kept_fail (queue : List RequestId) (penalized : Bool) (next : Next) :
    Kept queue s (s.fail queue penalized next) := by
  unfold fail
  split
  · rename_i q queue
    exact kept_release_read (r := .busy queue next) hu (by simp) q
  · exact kept_read (r := .busy _ next) hu (by simp)

theorem kept_unclaimed (ev : UpstreamEvent) : Kept [] s (s.unclaimed ev) := by
  unfold unclaimed
  split_ifs
  · exact kept_requestReconnect
      (kept_read (r := .relaying) (upstream_requestReconnect hu) (by decide))
  · exact kept_afterMessage hu
  · exact kept_read (r := .relaying) hu (by decide)

theorem kept_finalize (q : RequestId) : Kept [q] s (s.finalize q) :=
  kept_release_read (r := .busy [] (.relay false)) hu (by simp) q

theorem kept_resume (next : Next) : Kept [] s (s.resume next) := by
  unfold resume
  split
  · exact kept_afterMessage hu
  · exact kept_read (r := .relaying) hu (by decide)
  · exact kept_read (r := .closing) hu (by decide)
  · exact kept_requestReconnect
      (kept_read (r := .closing) (upstream_requestReconnect hu) (by decide))
  · exact kept_read (r := .receiving) hu (by decide)

end Reader

theorem Kept.of_book {b : Book F} (h : Kept extra {s with book := b} t)
    (hb : b.holder = s.book.holder) : Kept extra s t where
  loop := h.loop
  running := h.running
  covered := by
    intro p hp
    rw [← hb]
    exact h.covered p hp
  frame := by
    intro p hpending hextra
    rw [← hb]
    exact h.frame p hpending hextra

theorem Kept.of_pending {ps : List RequestId} (h : Kept extra {s with pending := ps} t)
    (hsub : ∀ p, p ∈ s.pending ↔ p ∈ ps ∨ p ∈ extra) : Kept [] s t where
  loop := h.loop
  running := h.running
  covered := by
    intro p hp
    refine ⟨(h.covered p hp).1,fun hmem => (h.covered p hp).2 ?_⟩
    rcases hmem with hmem | hmem
    · exact (hsub p).mp hmem
    · cases hmem
  frame := by
    intro p hpending _
    rw [hsub p,not_or] at hpending
    exact h.frame p hpending.1 hpending.2

structure Parks (q : RequestId) (s t : Connection F) : Prop where
  loop : t.loop = s.loop
  held : s.book.holder = some q
  holder : t.book.holder = some q
  pending : t.pending = []
  hand : t.hand = []

variable {r : Request F}

/-- The error of the event is one after which a request may be sent again. -/
def AllowsReplay (ev : UpstreamEvent) : Prop :=
  ev.previousResponseNotFound = true ∨ ev.replayErrorCode = true

theorem precreatedRetry_spec {ev : UpstreamEvent} {other : Bool} {c : RetryCode}
    (h : precreatedRetryErrorCode r ev other = some c) :
    other = false ∧ r.awaitingResponseCreated = true ∧ AllowsReplay ev := by
  unfold precreatedRetryErrorCode at h
  unfold AllowsReplay
  split_ifs at h <;> simp_all

theorem holder_of_awaiting (hr : s.book.table.get? q = some r)
    (h : r.awaitingResponseCreated = true) : s.book.holder = some q := by
  rw [s.book.paired q r hr] at h
  exact (s.book.acquired_iff hr).mp h

variable {u : Upstream}

theorem parks_parkAs (hu : s.upstream = some u) {f : Request F → Request F}
    (hf : ∀ r, (f r).responseCreateGateAcquired = r.responseCreateGateAcquired ∧ (f
      r).awaitingResponseCreated = r.awaitingResponseCreated) (hq : s.book.holder = some q)
    (hpending : s.pending = []) {r : Reader} (hr : r.hand = []) :
    Parks q s ((s.parkAs q f hf).read r) where
  loop := rfl
  held := hq
  holder := (s.book.holder_update q f hf).trans hq
  pending := hpending
  hand := by simp [Connection.hand,read,parkAs,park,hu,hr]

theorem retry_cases (hu : s.upstream = some u) (r : Request F) {code : Option RetryCode}
    (hcode : ∀ c, code = some c → s.book.holder = some q ∧ s.pending = []) :
    Kept [q] s (s.retry q r code) ∨ code ≠ none ∧ Parks q s (s.retry q r code) := by
  unfold retry
  split
  · exact .inl (kept_finalize hu q)
  · obtain ⟨hholder,hpending⟩ := hcode _ rfl
    split_ifs
    · exact .inl (kept_read (r := .busy [q] (.relay false)) hu (by simp))
    · exact .inr ⟨by simp,parks_parkAs hu _ hholder hpending rfl⟩
  · obtain ⟨hholder,hpending⟩ := hcode _ rfl
    split
    · split_ifs
      · unfold afterMessage
        split_ifs
        · exact .inr ⟨by simp,parks_parkAs hu _ hholder hpending rfl⟩
        · exact .inr ⟨by simp,parks_parkAs hu _ hholder hpending rfl⟩
      · exact .inl (kept_finalize hu q)
    · exact .inl (kept_finalize hu q)

theorem conclude_cases (hu : s.upstream = some u) (q : RequestId) (ev : UpstreamEvent) :
    Kept [q] s (s.conclude q ev) ∨ AllowsReplay ev ∧ Parks q s (s.conclude q ev) := by
  unfold conclude
  split
  · exact .inl (kept_finalize hu q)
  · rename_i r hr
    have hcode : ∀ c, precreatedRetryErrorCode r ev (s.pending ≠ []) = some c →
        s.book.holder = some q ∧ s.pending = [] := by
      intro c hc
      obtain ⟨hother,hawait,-⟩ := precreatedRetry_spec hc
      exact ⟨holder_of_awaiting hr hawait,by simpa using hother⟩
    have hcause : precreatedRetryErrorCode r ev (s.pending ≠ []) ≠ none → AllowsReplay ev := by
      intro hne
      obtain ⟨c,hc⟩ := Option.ne_none_iff_exists'.mp hne
      exact (precreatedRetry_spec hc).2.2
    split_ifs
    · exact .inl (kept_requestReconnect (kept_finalize (upstream_requestReconnect hu) q))
    · rcases retry_cases (s := s.requestReconnect) (upstream_requestReconnect hu) r hcode with h | h
      · exact .inl (kept_requestReconnect h)
      · exact .inr ⟨hcause h.1,h.2.loop,h.2.held,h.2.holder,h.2.pending,h.2.hand⟩
    · exact (retry_cases hu r hcode).imp_right (And.imp_left hcause)

end Connection

end CodexLb.WebsocketProxy
