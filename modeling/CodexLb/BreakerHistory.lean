import CodexLb.CircuitBreaker

/-!
# What the breaker remembers, against the log

The counters of the breaker are counts over the log: the failure count counts
server failures since the last close or the last success recorded while the
breaker was closed, and the stored time is that of the newest failure.

The success count has no such reading in every run, because `_record_success`
does not ask which call succeeded.
-/
namespace CodexLb.CircuitBreaker
open Runs CircuitBreaker.System

def failuresSinceReset : List Entry → ℕ
  | [] => 0
  | .failed _::l => failuresSinceReset l+1
  | .closed::_ => 0
  | .succeeded _ .closed::_ => 0
  | .succeeded _ _::l => failuresSinceReset l
  | .admitted _ _::l => failuresSinceReset l

def lastFailure : List Entry → Option ℚ
  | [] => none
  | .failed now::_ => some now
  | _::l => lastFailure l

/-- The entries newer than the newest failure. -/
def sinceFailure : List Entry → List Entry
  | [] => []
  | .failed _::_ => []
  | e::l => e::sinceFailure l

section
variable {cfg : Settings} {b b' : Breaker} {now : ℚ}

/-- The state read: an open breaker reads as half-open once its time is up. -/
theorem state_cases (cfg : Settings) (now : ℚ) (hne : b.stored ≠ .halfOpen) :
    (b.stored = .closed ∧ b.state cfg now = .closed) ∨
      (b.stored = .opened ∧ b.state cfg now = .opened) ∨
      (b.stored = .opened ∧ b.state cfg now = .halfOpen ∧
        ∃ x, b.lastFailureTime = some x ∧ cfg.recoveryTimeoutSeconds ≤ now-x) := by
  unfold Breaker.state
  cases hst : b.stored with
  | halfOpen => exact absurd hst hne
  | closed =>
    split <;> simp
  | opened =>
    right
    split
    · rename_i x hx
      by_cases hr : cfg.recoveryTimeoutSeconds ≤ now-x
      · exact .inr ⟨rfl,by simp [hr],x,hx,hr⟩
      · exact .inl ⟨rfl,by simp [hr]⟩
    · exact .inl ⟨rfl,rfl⟩

theorem preCallCheck_cases {probe : Bool} (hne : b.stored ≠ .halfOpen)
    (h : b.preCallCheck cfg now = some (probe,b')) :
    (b.stored = .closed ∧ probe = false ∧ b' = b) ∨
      (b.stored = .opened ∧ probe = true ∧ b' = {b with halfOpenProbeInFlight := true} ∧
        ∃ x, b.lastFailureTime = some x ∧ cfg.recoveryTimeoutSeconds ≤ now-x) := by
  unfold Breaker.preCallCheck at h
  rcases state_cases cfg now hne with ⟨hst,hstate⟩ | ⟨_,hstate⟩ | ⟨hst,hstate,hx⟩
  · rw [hstate] at h
    cases h
    exact .inl ⟨hst,rfl,rfl⟩
  · rw [hstate] at h
    cases h
  · rw [hstate] at h
    split_ifs at h
    cases h
    exact .inr ⟨hst,rfl,rfl,hx⟩

end

/-- What `_record_success` can do. -/
inductive Success (cfg : Settings) (s : System) (c : ℕ) : System → Prop
  | whileClosed (hst : s.breaker.stored = .closed) :
      Success cfg s c {s with
        breaker := {s.breaker with failureCount := 0}
        log := .succeeded c .closed::s.log}
  | whileOpened (hst : s.breaker.stored = .opened) :
      Success cfg s c {s with log := .succeeded c .opened::s.log}
  | counted (hst : s.breaker.stored = .opened)
      (hstate : s.breaker.state cfg s.now = .halfOpen) :
      Success cfg s c {s with
        breaker := {s.breaker with successCount := s.breaker.successCount+1}
        log := .succeeded c .halfOpen::s.log}
  | closing (hst : s.breaker.stored = .opened)
      (hstate : s.breaker.state cfg s.now = .halfOpen)
      (hcount : cfg.successThreshold ≤ s.breaker.successCount+1) :
      Success cfg s c {s with
        breaker := {s.breaker with stored := .closed,failureCount := 0,successCount := 0}
        log := .closed::.succeeded c .halfOpen::s.log}

variable {cfg : Settings} {s : System}

theorem perform_success (c : ℕ) (hne : s.breaker.stored ≠ .halfOpen) :
    Success cfg s c (s.perform cfg c .success) := by
  rcases state_cases cfg s.now hne with ⟨hst,hstate⟩ | ⟨hst,hstate⟩ |
    ⟨hst,hstate,_⟩
  · have he : s.perform cfg c .success = {s with
        breaker := {s.breaker with failureCount := 0}
        log := .succeeded c .closed::s.log} := by
      simp [perform,successEntries,Breaker.recordSuccess,hstate,hst]
    rw [he]
    exact .whileClosed hst
  · have he : s.perform cfg c .success = {s with log := .succeeded c .opened::s.log} := by
      simp [perform,successEntries,Breaker.recordSuccess,hstate,hst]
    rw [he]
    exact .whileOpened hst
  · by_cases hcount : cfg.successThreshold ≤ s.breaker.successCount+1
    · have he : s.perform cfg c .success = {s with
          breaker := {s.breaker with stored := .closed,failureCount := 0,successCount := 0}
          log := .closed::.succeeded c .halfOpen::s.log} := by
        simp [perform,successEntries,Breaker.recordSuccess,hstate,hst,hcount]
      rw [he]
      exact .closing hst hstate hcount
    · have he : s.perform cfg c .success = {s with
          breaker := {s.breaker with successCount := s.breaker.successCount+1}
          log := .succeeded c .halfOpen::s.log} := by
        simp [perform,successEntries,Breaker.recordSuccess,hstate,hst,hcount]
      rw [he]
      exact .counted hst hstate

/-- The counters agree with the log. -/
structure Counted (cfg : Settings) (s : System) : Prop where
  stored : s.breaker.stored ≠ .halfOpen
  failures : s.breaker.failureCount = failuresSinceReset s.log
  closed : s.breaker.stored = .closed ↔ s.breaker.failureCount < cfg.failureThreshold
  last : s.breaker.lastFailureTime = lastFailure s.log

variable {t : System}

theorem Counted.congr (h : Counted cfg s) (hb : t.breaker = s.breaker) (hl : t.log = s.log) :
    Counted cfg t := by
  obtain ⟨h1,h2,h3,h4⟩ := h
  constructor
  · rwa [hb]
  · rwa [hb,hl]
  · rwa [hb]
  · rwa [hb,hl]

variable {c : ℕ}

theorem counted_success (ht : 1 ≤ cfg.failureThreshold) (h : Counted cfg s)
    (hs : Success cfg s c t) : Counted cfg t := by
  cases hs with
  | whileClosed hst =>
    refine ⟨h.stored,rfl,?_,h.last⟩
    simp only [hst,true_iff]
    omega
  | whileOpened hst | counted hst _ => exact ⟨h.stored,h.failures,h.closed,h.last⟩
  | closing _ _ _ =>
    refine ⟨by simp,rfl,?_,h.last⟩
    simp only [true_iff]
    omega

theorem counted_failure {e : Exc} (h : Counted cfg s) :
    Counted cfg (s.perform cfg c (.failure e)) := by
  rcases s.perform_failure cfg c e with ⟨he,hp⟩ | ⟨hbreaker,hlog⟩
  · rw [hp]
    simp only [Breaker.recordFailure,he,if_true]
    refine ⟨?_,?_,?_,rfl⟩
    · dsimp only
      split_ifs
      · simp
      · exact h.stored
    · exact congrArg (·+1) h.failures
    · dsimp only
      split_ifs with hcount
      · simp only [false_iff]
        omega
      · have hlt : s.breaker.failureCount < cfg.failureThreshold := by omega
        rw [h.closed]
        omega
  · exact h.congr hbreaker hlog

theorem counted_perform (ht : 1 ≤ cfg.failureThreshold) (h : Counted cfg s) (op : Op) :
    Counted cfg (s.perform cfg c op) := by
  cases op with
  | success => exact counted_success ht h (perform_success c h.stored)
  | failure e => exact counted_failure h
  | release => exact ⟨h.stored,h.failures,h.closed,h.last⟩

theorem step_counted {e : Event} (ht : 1 ≤ cfg.failureThreshold) (h : Counted cfg s)
    (hs : step cfg s e = some t) : Counted cfg t := by
  cases step_cases hs with
  | advance _ | refuse _ _ | proceed _ _ | goOn _ => exact h.congr rfl rfl
  | admitted _ hcheck =>
    rcases preCallCheck_cases h.stored hcheck with ⟨_,_,rfl⟩ | ⟨_,_,rfl,_⟩
    · exact ⟨h.stored,h.failures,h.closed,h.last⟩
    · exact ⟨h.stored,h.failures,h.closed,h.last⟩
  | @perform c op _ _ _ => exact (counted_perform (c := c) ht h op).congr rfl rfl

theorem counted_start (ht : 1 ≤ cfg.failureThreshold) (now : ℚ) : Counted cfg (start now) := by
  refine ⟨by simp [start,Breaker.init],rfl,?_,rfl⟩
  simp only [start,Breaker.init,true_iff]
  omega

end CodexLb.CircuitBreaker
