import CodexLb.CircuitBreaker
import Mathlib.Algebra.Order.Group.Int

/-!
# The half-open probe slot

A call owes as many releases as its remaining code performs. Over all calls the
releases owed are exactly the probe slot: one when `_half_open_probe_in_flight`
is set and none otherwise. So the slot has one holder, and it is free when no
call is in flight.

One outcome breaks the account. `_open_upstream_websocket` with
`hold_half_open_probe` leaves the release to the socket it returns, and when it
raises there is no socket.
-/
namespace CodexLb.CircuitBreaker
open Runs CircuitBreaker.System

def Phase.releases : Phase → ℤ
  | .awaiting probe => probe.toInt
  | .entering probe => probe.toInt
  | .yielded probe _ => probe.toInt
  | .connecting probe _ => probe.toInt
  | .streaming bound _ _ => bound.toInt
  | .acting ops next => ops.count .release+next.releases
  | .refused => 0
  | .finished => 0

def Phase.inFlight : Phase → Bool
  | .refused => false
  | .finished => false
  | _ => true

theorem Phase.releases_nonneg (p : Phase) : 0 ≤ p.releases := by
  induction p with
  | awaiting probe | entering probe | yielded probe | connecting probe | streaming probe =>
    cases probe <;> simp [releases]
  | acting ops next ih =>
    simp only [releases]
    omega
  | refused | finished => exact le_refl 0

variable {p : Phase}

theorem Phase.releases_of_not_inFlight (h : p.inFlight = false) : p.releases = 0 := by
  cases p <;> first | rfl | cases h

theorem Phase.releases_admitted (kind : Kind) (probe : Bool) :
    (kind.admitted probe).releases = probe.toInt := by
  cases kind <;> rfl

theorem count_releaseIf (b : Bool) : ((releaseIf b).count .release : ℤ) = b.toInt := by
  cases b <;> rfl

theorem count_failureIf (e : Exc) : (failureIf e).count .release = 0 := by
  unfold failureIf
  split_ifs <;> rfl

theorem count_contextFault (status : Option ℤ) (e : Exc) :
    (contextFault status e).count .release = 0 := by
  unfold contextFault
  split_ifs <;> rfl

theorem count_handshakeRecord (status : ℤ) (fault : Option Exc) :
    (handshakeRecord status fault).count .release = 0 := by
  unfold handshakeRecord
  split_ifs
  · rfl
  · rfl
  · cases fault with
    | none => rfl
    | some e => exact count_failureIf e

def Handshake.opens : Handshake → Bool
  | .answered status fault => (handshakeFault status fault).isNone
  | _ => false

/-- Without the hold flag the opening function releases the slot itself. -/
theorem releases_openUpstreamWebsocket {probe hold : Bool} {h : Handshake}
    (hkept : probe = true → hold = true → h.opens = true) :
    (openUpstreamWebsocket probe hold h).releases = probe.toInt := by
  cases h with
  | raised e =>
    simp only [openUpstreamWebsocket,Phase.releases,List.count_append,count_failureIf,
      Nat.zero_add,count_releaseIf,add_zero]
    cases probe <;> cases hold <;> first | rfl | cases hkept rfl rfl
  | unbuilt e =>
    cases probe <;> cases hold <;> first | rfl | cases hkept rfl rfl
  | answered status fault =>
    simp only [openUpstreamWebsocket,Phase.releases,List.count_append,count_handshakeRecord,
      Nat.zero_add,count_releaseIf]
    simp only [Handshake.opens] at hkept
    cases hold with
    | false => cases probe <;> simp [Phase.releases]
    | true =>
      cases probe with
      | false => cases (handshakeFault status fault).isNone <;> simp [Phase.releases]
      | true => simp [Phase.releases,hkept rfl rfl]

variable {q : Phase}

/-- An outcome leaves the releases owed as they are, unless a held handshake of
the probe fails. -/
theorem releases_local {l : Local} (h : p.local l = some q)
    (hkept : ∀ a, p = .connecting true true → l = .handshake a → a.opens = true) :
    q.releases = p.releases := by
  unfold Phase.local at h
  split at h
  case h_1 probe o =>
    cases h
    cases o <;> simp [call,Phase.releases,count_failureIf,count_releaseIf]
  case h_2 => cases h; rfl
  case h_3 =>
    cases h
    simp [Phase.releases,count_contextFault,count_releaseIf]
  case h_4 probe status o =>
    cases h
    cases o with
    | returned =>
      simp only [serviceCircuitBreakerContext,Phase.releases]
      split_ifs <;> simp [count_releaseIf]
    | raised e =>
      simp [serviceCircuitBreakerContext,Phase.releases,count_contextFault,count_releaseIf]
  case h_5 probe hold a =>
    cases h
    refine releases_openUpstreamWebsocket ?_
    rintro rfl rfl
    exact hkept a rfl rfl
  case h_6 bound recorded _ =>
    cases h
    cases recorded <;> simp [Phase.releases]
  case h_7 bound recorded seen o =>
    cases h
    cases o with
    | returned =>
      cases seen <;> cases recorded <;>
        simp [streamResponsesViaWebsocket,Phase.releases,count_releaseIf]
    | raised e =>
      cases recorded <;>
        simp [streamResponsesViaWebsocket,Phase.releases,count_failureIf,count_releaseIf]
  case h_8 => cases h

/-- The releases owed are the slot. -/
def Balanced (s : System) : Prop :=
  s.calls.total (fun q => q.2.releases) = s.breaker.halfOpenProbeInFlight.toInt

/-- A probe that opens a socket and holds its slot gets the socket. -/
def ProbeKept (s : System) : Event → Prop
  | .proceed c (.handshake h) => s.calls.get? c = some (.connecting true true) → h.opens = true
  | _ => True

instance (s : System) (e : Event) : Decidable (ProbeKept s e) := by
  unfold ProbeKept
  split <;> infer_instance

theorem total_put (s : System) (c : ℕ) (p : Phase) :
    (s.put c p).calls.total (fun q => q.2.releases) =
      s.calls.total (fun q => q.2.releases)+(p.releases-(s.calls.get? c).elim 0 Phase.releases) :=
  s.calls.total_set c p Phase.releases

variable {s : System} {c : ℕ}

theorem balanced_put (h : Balanced s) (hp : s.calls.get? c = some p)
    (hq : q.releases = p.releases) : Balanced (s.put c q) := by
  unfold Balanced at h ⊢
  rw [total_put,hp,h]
  simp [hq]

variable {cfg : Settings}

/-- Only `pre_call_check` takes the slot, and only when it is free. -/
theorem preCallCheck_slot {b b' : Breaker} {now : ℚ} {probe : Bool}
    (h : b.preCallCheck cfg now = some (probe,b')) :
    b'.halfOpenProbeInFlight.toInt = b.halfOpenProbeInFlight.toInt+probe.toInt := by
  unfold Breaker.preCallCheck at h
  split at h
  · cases h
  · split_ifs at h with hb
    cases h
    simp [hb]
  · cases h
    simp

theorem halfOpen_recordSuccess (cfg : Settings) (b : Breaker) (now : ℚ) :
    (b.recordSuccess cfg now).halfOpenProbeInFlight = b.halfOpenProbeInFlight := by
  unfold Breaker.recordSuccess
  split
  · split_ifs <;> rfl
  · rfl
  · rfl

theorem halfOpen_recordFailure (cfg : Settings) (b : Breaker) (now : ℚ) (e : Exc) :
    (b.recordFailure cfg now e).halfOpenProbeInFlight = b.halfOpenProbeInFlight := by
  unfold Breaker.recordFailure
  split_ifs <;> rfl

/-- A release is owed only while the slot is taken, so performing it frees the slot. -/
theorem balanced_perform {op : Op} {ops : List Op} {next : Phase} (h : Balanced s)
    (hp : s.calls.get? c = some (.acting (op::ops) next)) :
    Balanced ((s.perform cfg c op).put c (.acting ops next)) := by
  unfold Balanced
  rw [total_put,perform_calls,hp,put_breaker]
  rw [h]
  cases op with
  | success =>
    simp [perform,halfOpen_recordSuccess,Phase.releases]
  | failure e =>
    simp [perform,halfOpen_recordFailure,Phase.releases]
  | release =>
    have hle := s.calls.le_total (w := fun q => q.2.releases)
      (fun q _ => q.2.releases_nonneg) (Dict.get?_eq_some.mp hp)
    rw [h] at hle
    have hnext := next.releases_nonneg
    simp only [Phase.releases,List.count_cons_self] at hle
    simp only [perform,Breaker.releaseHalfOpenProbe,Phase.releases,Option.elim_some,
      List.count_cons_self]
    cases hb : s.breaker.halfOpenProbeInFlight with
    | false =>
      rw [hb] at hle
      simp only [Bool.toInt_false] at hle
      omega
    | true =>
      simp only [Bool.toInt_false,Bool.toInt_true]
      omega

theorem step_balanced {t : System} {e : Event} (h : Balanced s) (hkept : ProbeKept s e)
    (hs : step cfg s e = some t) : Balanced t := by
  cases step_cases hs with
  | advance _ => exact h
  | @refuse c _ hnew _ =>
    unfold Balanced at h ⊢
    rw [total_put,hnew,h]
    simp [Phase.releases]
  | @admitted c kind probe b hnew hcheck =>
    unfold Balanced at h ⊢
    rw [total_put,hnew,h,preCallCheck_slot hcheck,Phase.releases_admitted]
    simp
  | @proceed c l p q hp hl =>
    refine balanced_put h hp (releases_local hl ?_)
    rintro a rfl rfl
    exact hkept hp
  | goOn hp => exact balanced_put h hp (by simp [Phase.releases])
  | perform hp => exact balanced_perform h hp

/-- Whoever owes a release was admitted as the probe. -/
def Credited (s : System) : Prop :=
  ∀ c p, s.calls.get? c = some p → 0 < p.releases → Entry.admitted c true ∈ s.log

theorem credited_put (h : Credited s) (hp : s.calls.get? c = some p)
    (hle : q.releases ≤ p.releases) : Credited (s.put c q) := by
  intro d r hr hpos
  simp only [put,Dict.get?_set] at hr
  split_ifs at hr with hd
  · cases hr
    subst hd
    exact h d p hp (lt_of_lt_of_le hpos hle)
  · exact h d r hr hpos

theorem log_perform (cfg : Settings) (s : System) (c : ℕ) (op : Op) :
    ∃ l, (s.perform cfg c op).log = l++s.log := by
  cases op with
  | success => exact ⟨_,rfl⟩
  | failure e =>
    simp only [perform]
    split_ifs
    · exact ⟨[.failed s.now],rfl⟩
    · exact ⟨[],rfl⟩
  | release => exact ⟨[],rfl⟩

theorem step_credited {t : System} {e : Event} (h : Credited s) (hkept : ProbeKept s e)
    (hs : step cfg s e = some t) : Credited t := by
  cases step_cases hs with
  | advance _ => exact h
  | @refuse c _ hnew _ =>
    intro d r hr hpos
    simp only [put,Dict.get?_set] at hr
    split_ifs at hr with hd
    · cases hr
      cases hpos
    · exact h d r hr hpos
  | @admitted c kind probe b hnew _ =>
    intro d r hr hpos
    change (s.calls.set c (kind.admitted probe)).get? d = some r at hr
    rw [Dict.get?_set] at hr
    split_ifs at hr with hd
    · cases hr
      subst hd
      rw [Phase.releases_admitted] at hpos
      cases probe with
      | false => cases hpos
      | true => exact List.mem_cons_self ..
    · exact List.mem_cons_of_mem _ (h d r hr hpos)
  | @proceed c l p q hp hl =>
    refine credited_put h hp (le_of_eq (releases_local hl ?_))
    rintro a rfl rfl
    exact hkept hp
  | goOn hp => exact credited_put h hp (by simp [Phase.releases])
  | @perform c op ops next hp =>
    obtain ⟨l,hl⟩ := log_perform cfg s c op
    have hgrown : Credited (s.perform cfg c op) := by
      intro d r hr hpos
      rw [perform_calls] at hr
      rw [hl]
      exact List.mem_append_right _ (h d r hr hpos)
    refine credited_put hgrown (by rw [perform_calls]; exact hp) ?_
    have hcount := List.count_le_count_cons (a := Op.release) (b := op) (l := ops)
    simp only [Phase.releases]
    omega

theorem run_slot {now : ℚ} {es : List Event}
    (h : Run (restrict (Steps (step cfg)) ProbeKept) (start now) es s) :
    Balanced s ∧ Credited s := by
  refine h.invariant (I := fun s => Balanced s ∧ Credited s) ?_ ⟨rfl,?_⟩
  · exact fun _ _ _ hi hs => ⟨step_balanced hi.1 hs.1 hs.2,step_credited hi.2 hs.1 hs.2⟩
  · intro c p hp
    exact Dict.not_mem_empty hp

/-- The call still has to release the slot. -/
def System.Holds (s : System) (c : ℕ) : Prop :=
  ∃ p, s.calls.get? c = some p ∧ p.inFlight = true ∧ 0 < p.releases

theorem exists_holder (h : Balanced s) (hb : s.breaker.halfOpenProbeInFlight = true) :
    ∃ c, s.Holds c := by
  by_contra hnone
  have hzero := s.calls.total_eq_zero (w := fun q => q.2.releases) (by
    rintro ⟨c,p⟩ hmem
    by_contra hne
    have hpos : 0 < p.releases := lt_of_le_of_ne p.releases_nonneg (Ne.symm hne)
    refine hnone ⟨c,p,Dict.get?_eq_some.mpr hmem,?_,hpos⟩
    by_contra hflight
    rw [Phase.releases_of_not_inFlight (by simpa using hflight)] at hpos
    exact absurd hpos (lt_irrefl 0))
  rw [h,hb] at hzero
  cases hzero

theorem holder_unique {d : ℕ} (h : Balanced s) (hc : s.Holds c) (hd : s.Holds d) : c = d := by
  obtain ⟨p,hp,_,hpos⟩ := hc
  obtain ⟨q,hq,_,hqpos⟩ := hd
  have hle := s.calls.add_le_total (w := fun q => q.2.releases)
    (fun q _ => q.2.releases_nonneg) (Dict.get?_eq_some.mp hp) (Dict.get?_eq_some.mp hq)
  rw [h] at hle
  have hone : s.breaker.halfOpenProbeInFlight.toInt ≤ 1 := by
    cases s.breaker.halfOpenProbeInFlight <;> decide
  simp only at hle
  omega

/-- When no call is in flight the slot is free; while it is taken, one call in
flight holds it, and that call's `pre_call_check` returned true. -/
theorem probe_slot_returned {cfg : Settings} {now : ℚ} {es : List Event} {s : System}
    (h : Run (restrict (Steps (step cfg)) ProbeKept) (start now) es s) :
    ((∀ c p, s.calls.get? c = some p → p.inFlight = false) →
        s.breaker.halfOpenProbeInFlight = false) ∧
      (s.breaker.halfOpenProbeInFlight = true →
        ∃ c, s.Holds c ∧ Entry.admitted c true ∈ s.log ∧ ∀ d, s.Holds d → d = c) := by
  obtain ⟨hbal,hcred⟩ := run_slot h
  refine ⟨?_,?_⟩
  · intro hidle
    by_contra hb
    obtain ⟨c,p,hp,hflight,_⟩ := exists_holder hbal (by simpa using hb)
    rw [hidle c p hp] at hflight
    cases hflight
  · intro hb
    obtain ⟨c,hc⟩ := exists_holder hbal hb
    have hprobe : Entry.admitted c true ∈ s.log := by
      obtain ⟨p,hp,_,hpos⟩ := hc
      exact hcred c p hp hpos
    exact ⟨c,hc,hprobe,fun d hd => holder_unique hbal hd hc⟩

def quickSettings : Settings := ⟨1,60,2⟩

/-- One call fails and opens the breaker; the recovery timeout passes. -/
def outageEvents : List Event :=
  [.start 0 .call,.proceed 0 (.ended (.raised .timeout)),.act 0,.act 0,.advance 60]

def streamedProbeEvents : List Event :=
  outageEvents++[.start 1 (.websocket true),.proceed 1 (.handshake (.answered 101 none)),.act 1,
    .proceed 1 .terminalEvent,.act 1,.act 1,.proceed 1 (.ended .returned),.act 1,.act 1]

theorem streamed_probe_returns_slot :
    ∃ s, Run (restrict (Steps (step quickSettings)) ProbeKept) (start 0)
        streamedProbeEvents s ∧
      (Entry.admitted 1 true ∈ s.log ∧ ∀ q ∈ s.calls.rows, q.2 = .finished) ∧
      s.breaker.halfOpenProbeInFlight = false := by
  refine exists_run_with (fun s hrun hs => ⟨hs,(probe_slot_returned hrun).1 fun c p hp => ?_⟩)
    (by decide +kernel)
  have hfin : p = .finished := hs.2 (c,p) (Dict.get?_eq_some.mp hp)
  rw [hfin]
  rfl

def failedProbeEvents : List Event :=
  outageEvents++[.start 1 (.websocket true),.proceed 1 (.handshake (.raised (.other none))),
    .act 1,.act 1]

theorem failed_connect_leaks_slot :
    ∃ s, Run (Steps (step quickSettings)) (start 0) failedProbeEvents s ∧
      (∀ q ∈ s.calls.rows, q.2 = .finished) ∧ s.breaker.halfOpenProbeInFlight = true :=
  exists_steps_of_exec (by decide +kernel)

end CodexLb.CircuitBreaker
