import CodexLb.BreakerHistory
import Mathlib.Data.Fintype.EquivFin

/-!
# How the breaker closes again

A call records at most one outcome, whichever of its awaits ends it. While the
breaker is open, its success count should therefore be a number of calls, each
admitted as a probe after the last failure.

It is not so in every run. `_record_success` counts any success that meets a
half-open breaker, also that of a call admitted before the breaker opened. When
every success recorded at a half-open breaker is of a call admitted after the
last failure, that call was a probe, and the breaker closes only after the
required number of probes.
-/
namespace CodexLb.CircuitBreaker
open Runs

def Op.isRecord : Op → Bool
  | .release => false
  | _ => true

def Phase.records : Phase → ℕ
  | .awaiting _ => 1
  | .entering _ => 1
  | .yielded _ _ => 1
  | .connecting _ _ => 1
  | .streaming _ recorded _ => if recorded then 0 else 1
  | .acting ops next => ops.countP Op.isRecord+next.records
  | .refused => 0
  | .finished => 0

theorem records_admitted {kind : Kind} {probe : Bool} : (kind.admitted probe).records = 1 := by
  cases kind <;> rfl

variable {b : Bool}

theorem countP_releaseIf : (releaseIf b).countP Op.isRecord = 0 := by
  cases b <;> rfl

theorem countP_cons_releaseIf (op : Op) : (op::releaseIf b).countP Op.isRecord ≤ 1 := by
  rw [List.countP_cons,countP_releaseIf]
  split_ifs <;> decide

theorem countP_failureIf {e : Exc} : (failureIf e).countP Op.isRecord ≤ 1 := by
  unfold failureIf
  split_ifs <;> simp [Op.isRecord]

theorem countP_contextFault {status : Option ℤ} {e : Exc} :
    (contextFault status e).countP Op.isRecord ≤ 1 := by
  unfold contextFault
  split_ifs <;> simp [Op.isRecord]

/-- An answer is recorded, or it opens the socket. -/
theorem countP_handshakeRecord (status : ℤ) (fault : Option Exc) :
    (handshakeRecord status fault).countP Op.isRecord+
      (if (handshakeFault status fault).isNone then 1 else 0) ≤ 1 := by
  unfold handshakeRecord handshakeFault
  by_cases h500 : 500 ≤ status
  · have h101 : status ≠ 101 := by omega
    simp [h500,h101,Op.isRecord]
  · by_cases h101 : status = 101
    · subst h101
      cases fault with
      | none => simp
      | some e => simpa [h500] using countP_failureIf
    · simp [h500,h101,Op.isRecord]

theorem records_openUpstreamWebsocket (probe hold : Bool) (h : Handshake) :
    (openUpstreamWebsocket probe hold h).records ≤ 1 := by
  cases h with
  | raised e =>
    simpa [openUpstreamWebsocket,Phase.records,countP_releaseIf] using countP_failureIf
  | unbuilt e => simp [openUpstreamWebsocket,Phase.records,countP_releaseIf]
  | answered status fault =>
    have hle := countP_handshakeRecord status fault
    simp only [openUpstreamWebsocket,Phase.records,List.countP_append,countP_releaseIf,
      Nat.add_zero]
    cases hold with
    | false => simpa [Phase.records] using (Nat.le_add_right _ _).trans hle
    | true => cases hf : (handshakeFault status fault).isNone <;> simpa [hf,Phase.records] using hle

variable {q p : Phase}

theorem records_local {l : Local} (h : p.local l = some q) : q.records ≤ p.records := by
  unfold Phase.local at h
  split at h
  case h_1 probe o =>
    cases h
    cases o with
    | returned => exact countP_cons_releaseIf .success
    | raised e => simpa [call,Phase.records,countP_releaseIf] using countP_failureIf
  case h_2 => cases h; exact le_refl 1
  case h_3 probe e =>
    cases h
    simpa [Phase.records,countP_releaseIf] using countP_contextFault
  case h_4 probe status o =>
    cases h
    cases o with
    | returned => exact countP_cons_releaseIf _
    | raised e =>
      simpa [serviceCircuitBreakerContext,Phase.records,countP_releaseIf] using
        countP_contextFault
  case h_5 probe hold a =>
    cases h
    exact records_openUpstreamWebsocket probe hold a
  case h_6 bound recorded _ =>
    cases h
    cases recorded <;> simp [Phase.records,Op.isRecord]
  case h_7 bound recorded seen o =>
    cases h
    cases o with
    | returned =>
      cases recorded with
      | true => simp [streamResponsesViaWebsocket,Phase.records,countP_releaseIf]
      | false =>
        cases seen with
        | true => simp [streamResponsesViaWebsocket,Phase.records,countP_releaseIf]
        | false => exact countP_cons_releaseIf (.failure (.other none))
    | raised e =>
      cases recorded with
      | true => simp [streamResponsesViaWebsocket,Phase.records,countP_releaseIf]
      | false =>
        simpa [streamResponsesViaWebsocket,Phase.records,countP_releaseIf] using
          countP_failureIf
  case h_8 => cases h

structure RecordsOnce (s : System) : Prop where
  bounded : ∀ c p, s.calls.get? c = some p → p.records ≤ 1
  spent : ∀ c met, Entry.succeeded c met ∈ s.log →
    ∃ p, s.calls.get? c = some p ∧ p.records = 0

variable {s : System} {c : ℕ}

theorem RecordsOnce.put (h : RecordsOnce s) (hp : s.calls.get? c = some p)
    (hle : q.records ≤ p.records) : RecordsOnce (s.put c q) := by
  constructor
  · intro d r hr
    simp only [System.put,Dict.get?_set] at hr
    split_ifs at hr with hd
    · cases hr
      exact hle.trans (h.bounded c p hp)
    · exact h.bounded d r hr
  · intro d met hmem
    obtain ⟨r,hr,hzero⟩ := h.spent d met hmem
    simp only [System.put,Dict.get?_set]
    split_ifs with hd
    · subst hd
      rw [hp] at hr
      cases hr
      exact ⟨q,rfl,by omega⟩
    · exact ⟨r,hr,hzero⟩

variable {l : List Entry} {t : System}

theorem RecordsOnce.create (h : RecordsOnce s) (hnew : s.calls.get? c = none) (hq : q.records ≤ 1)
    (hcalls : t.calls = s.calls.set c q) (hlog : t.log = l++s.log)
    (hl : ∀ d met, Entry.succeeded d met ∉ l) : RecordsOnce t := by
  constructor
  · intro d r hr
    rw [hcalls,Dict.get?_set] at hr
    split_ifs at hr
    · cases hr
      exact hq
    · exact h.bounded d r hr
  · intro d met hmem
    rw [hlog] at hmem
    have hold := (List.mem_append.mp hmem).resolve_left (hl d met)
    obtain ⟨r,hr,hzero⟩ := h.spent d met hold
    rw [hcalls,Dict.get?_set]
    split_ifs with hd
    · subst hd
      rw [hnew] at hr
      cases hr
    · exact ⟨r,hr,hzero⟩

variable {cfg : Settings} {op : Op} {met : CircuitState}

theorem succeeded_perform {d : ℕ} (h : Entry.succeeded d met ∈ (s.perform cfg c op).log) :
    Entry.succeeded d met ∈ s.log ∨ (d = c ∧ op = .success) := by
  cases op with
  | success =>
    simp only [System.perform,System.successEntries] at h
    split_ifs at h
    all_goals
      simp only [List.cons_append,List.nil_append,List.mem_cons,reduceCtorEq,false_or,
        Entry.succeeded.injEq] at h
      exact h.symm.imp id fun he => ⟨he.1,rfl⟩
  | failure e =>
    simp only [System.perform] at h
    split_ifs at h
    · simp only [List.mem_cons,reduceCtorEq,false_or] at h
      exact .inl h
    · exact .inl h
  | release => exact .inl h

variable {ops : List Op} {next : Phase}

theorem RecordsOnce.perform (h : RecordsOnce s)
    (hp : s.calls.get? c = some (.acting (op::ops) next)) :
    RecordsOnce ((s.perform cfg c op).put c (.acting ops next)) := by
  have hbound := h.bounded c _ hp
  simp only [Phase.records,List.countP_cons] at hbound
  constructor
  · intro d r hr
    simp only [System.put,System.perform_calls,Dict.get?_set] at hr
    split_ifs at hr
    · cases hr
      simp only [Phase.records]
      omega
    · exact h.bounded d r hr
  · intro d met hmem
    simp only [System.put,System.perform_calls,Dict.get?_set]
    rcases succeeded_perform hmem with hold | ⟨rfl,rfl⟩
    · obtain ⟨r,hr,hzero⟩ := h.spent d met hold
      split_ifs with hd
      · subst hd
        rw [hp] at hr
        cases hr
        simp only [Phase.records,List.countP_cons] at hzero
        exact ⟨_,rfl,by simp only [Phase.records]; omega⟩
      · exact ⟨r,hr,hzero⟩
    · simp only [Op.isRecord,if_true] at hbound
      rw [if_pos rfl]
      exact ⟨_,rfl,by simp only [Phase.records]; omega⟩

variable {e : Event}

theorem step_recordsOnce (h : RecordsOnce s) (hs : step cfg s e = some t) : RecordsOnce t := by
  cases step_cases hs with
  | advance _ => exact ⟨h.bounded,h.spent⟩
  | refuse hnew _ =>
    exact h.create (q := .refused) (l := []) hnew (Nat.zero_le 1) rfl rfl nofun
  | @admitted c kind probe b hnew _ =>
    exact h.create (l := [.admitted c probe]) hnew (records_admitted).le rfl rfl
      fun _ _ hm => by simp at hm
  | proceed hp hl => exact h.put hp (records_local hl)
  | goOn hp => exact h.put hp (by simp [Phase.records])
  | perform hp => exact h.perform hp

variable {now : ℚ} {es : List Event}

theorem run_recordsOnce (h : Run (Steps (step cfg)) (System.start now) es s) : RecordsOnce s := by
  refine h.invariant (I := RecordsOnce) (fun _ _ _ hi hs => step_recordsOnce hi hs) ⟨?_,?_⟩
  · exact fun c p hp => Dict.not_mem_empty hp
  · exact nofun

def admittedSinceFailure (s : System) (c : ℕ) : Prop :=
  Entry.admitted c true ∈ sinceFailure s.log ∨ Entry.admitted c false ∈ sinceFailure s.log

/-- A success recorded at a half-open breaker is of a call admitted after the
last failure. -/
def Prompt (cfg : Settings) (s : System) : Event → Prop
  | .act c => match s.calls.get? c with
      | some (.acting (.success::_) _) =>
        s.breaker.state cfg s.now = .halfOpen → admittedSinceFailure s c
      | _ => True
  | _ => True

instance (s : System) (c : ℕ) : Decidable (admittedSinceFailure s c) := by
  unfold admittedSinceFailure
  infer_instance

instance (cfg : Settings) (s : System) (e : Event) : Decidable (Prompt cfg s e) := by
  unfold Prompt
  split
  · split <;> infer_instance
  · infer_instance

structure Probed (l : List Entry) (cs : List ℕ) : Prop where
  nodup : cs.Nodup
  admitted : ∀ c ∈ cs, Entry.admitted c true ∈ sinceFailure l
  succeeded : ∀ c ∈ cs, ∃ met, Entry.succeeded c met ∈ sinceFailure l

theorem sinceFailure_cons {e : Entry} (h : ∀ now, e ≠ .failed now) :
    sinceFailure (e::l) = e::sinceFailure l := by
  cases e with
  | failed now => exact absurd rfl (h now)
  | admitted c probe | succeeded c met | closed => rfl

theorem mem_of_mem_sinceFailure {e : Entry} (h : e ∈ sinceFailure l) : e ∈ l := by
  induction l using sinceFailure.induct with
  | case1 | case2 => cases h
  | case3 x l hx ih =>
    rw [sinceFailure] at h
    · rcases List.mem_cons.mp h with rfl | h
      · exact List.mem_cons_self ..
      · exact List.mem_cons_of_mem _ (ih h)
    · exact hx

variable {cs : List ℕ}

theorem Probed.grow {e : Entry} (h : Probed l cs) (he : ∀ now, e ≠ .failed now) :
    Probed (e::l) cs := by
  refine ⟨h.nodup,fun c hc => ?_,fun c hc => ?_⟩
  · rw [sinceFailure_cons he]
    exact List.mem_cons_of_mem _ (h.admitted c hc)
  · obtain ⟨met,hmet⟩ := h.succeeded c hc
    rw [sinceFailure_cons he]
    exact ⟨met,List.mem_cons_of_mem _ hmet⟩

theorem Probed.credit (h : Probed l cs) (hnew : ∀ met, Entry.succeeded c met ∉ l)
    (hc : Entry.admitted c true ∈ sinceFailure l) : Probed (.succeeded c met::l) (c::cs) := by
  have hgrown := h.grow (e := .succeeded c met) nofun
  refine ⟨List.nodup_cons.mpr ⟨fun hmem => ?_,h.nodup⟩,?_,?_⟩
  · obtain ⟨m,hm⟩ := h.succeeded c hmem
    exact hnew m (mem_of_mem_sinceFailure hm)
  · rintro d (_ | ⟨_,hd⟩)
    · exact List.mem_cons_of_mem _ hc
    · exact hgrown.admitted d hd
  · rintro d (_ | ⟨_,hd⟩)
    · exact ⟨met,List.mem_cons_self ..⟩
    · exact hgrown.succeeded d hd

structure Earned (s : System) : Prop where
  idle : s.breaker.stored = .closed → s.breaker.successCount = 0
  probes : s.breaker.stored = .opened →
    ∀ c probe, Entry.admitted c probe ∈ sinceFailure s.log → probe = true
  earned : s.breaker.stored = .opened →
    ∃ cs, cs.length = s.breaker.successCount ∧ Probed s.log cs

theorem Earned.congr (h : Earned s) (hb : t.breaker = s.breaker) (hl : t.log = s.log) :
    Earned t := by
  obtain ⟨h1,h2,h3⟩ := h
  constructor
  · rwa [hb]
  · rwa [hb,hl]
  · rwa [hb,hl]

theorem Earned.probe (h : Earned s) (hst : s.breaker.stored = .opened)
    (hc : admittedSinceFailure s c) : Entry.admitted c true ∈ sinceFailure s.log := by
  rcases hc with hc | hc
  · exact hc
  · cases h.probes hst c false hc

theorem Earned.admit_closed {p : Bool} (h : Earned s) (hst : s.breaker.stored = .closed) :
    Earned {s with log := .admitted c p::s.log} := by
  refine ⟨h.idle,fun ho => ?_,fun ho => ?_⟩
  · rw [hst] at ho
    cases ho
  · rw [hst] at ho
    cases ho

theorem Earned.admit_probe (h : Earned s) (hst : s.breaker.stored = .opened) : Earned {s with
      breaker := {s.breaker with halfOpenProbeInFlight := true}
      log := .admitted c true::s.log} := by
  refine ⟨h.idle,fun _ d p hmem => ?_,fun _ => ?_⟩
  · rcases List.mem_cons.mp hmem with he | hmem
    · cases he
      rfl
    · exact h.probes hst d p hmem
  · obtain ⟨cs,hlen,hcs⟩ := h.earned hst
    exact ⟨cs,hlen,hcs.grow nofun⟩

theorem earned_success (h : Earned s) (hnew : ∀ met, Entry.succeeded c met ∉ s.log)
    (hprompt : s.breaker.state cfg s.now = .halfOpen → admittedSinceFailure s c)
    (hs : Success cfg s c t) : Earned t := by
  cases hs with
  | whileClosed hst =>
    refine ⟨h.idle,fun ho => ?_,fun ho => ?_⟩
    · cases hst.symm.trans ho
    · cases hst.symm.trans ho
  | whileOpened hst =>
    refine ⟨h.idle,fun _ d p hmem => ?_,fun _ => ?_⟩
    · exact h.probes hst d p ((List.mem_cons.mp hmem).resolve_left nofun)
    · obtain ⟨cs,hlen,hcs⟩ := h.earned hst
      exact ⟨cs,hlen,hcs.grow nofun⟩
  | counted hst hstate =>
    refine ⟨fun hc => ?_,fun _ d p hmem => ?_,fun _ => ?_⟩
    · cases hst.symm.trans hc
    · exact h.probes hst d p ((List.mem_cons.mp hmem).resolve_left nofun)
    · obtain ⟨cs,hlen,hcs⟩ := h.earned hst
      exact ⟨c::cs,by simp [hlen],hcs.credit hnew (h.probe hst (hprompt hstate))⟩
  | closing _ _ _ => exact ⟨fun _ => rfl,fun ho => (by cases ho),nofun⟩

theorem closing_probed (h : Earned s) (hnew : ∀ met, Entry.succeeded c met ∉ s.log)
    (hprompt : s.breaker.state cfg s.now = .halfOpen → admittedSinceFailure s c)
    (hs : Success cfg s c t) (hopened : s.breaker.stored = .opened)
    (hclosed : t.breaker.stored = .closed) :
    ∃ cs, cfg.successThreshold ≤ cs.length ∧ Probed t.log cs := by
  cases hs with
  | whileClosed hst => cases hst.symm.trans hopened
  | whileOpened hst | counted hst hstate => cases hst.symm.trans hclosed
  | closing hst hstate hcount =>
    obtain ⟨cs,hlen,hcs⟩ := h.earned hst
    refine ⟨c::cs,by simp only [List.length_cons]; omega,?_⟩
    exact (hcs.credit hnew (h.probe hst (hprompt hstate))).grow nofun

theorem earned_failure {e : Exc} (h : Earned s) : Earned (s.perform cfg c (.failure e)) := by
  rcases s.perform_failure cfg c e with ⟨he,hp⟩ | ⟨hbreaker,hlog⟩
  · rw [hp]
    simp only [Breaker.recordFailure,he,if_true]
    refine ⟨fun _ => rfl,fun _ d p hmem => (by cases hmem),fun _ => ⟨[],rfl,?_⟩⟩
    exact ⟨List.nodup_nil,fun _ hd => (by cases hd),by simp⟩
  · exact h.congr hbreaker hlog

theorem RecordsOnce.unrecorded (h : RecordsOnce s)
    (hp : s.calls.get? c = some (.acting (op::ops) next)) (hop : op.isRecord = true) :
    ∀ met, Entry.succeeded c met ∉ s.log := by
  intro met hmem
  obtain ⟨p,hcall,hzero⟩ := h.spent c met hmem
  rw [hp] at hcall
  cases hcall
  simp only [Phase.records,List.countP_cons,hop,if_true] at hzero
  omega

theorem prompt_success (h : Prompt cfg s (.act c))
    (hp : s.calls.get? c = some (.acting (.success::ops) next)) :
    s.breaker.state cfg s.now = .halfOpen → admittedSinceFailure s c := by
  simpa only [Prompt,hp] using h

theorem step_earned (h : Earned s) (hcount : Counted cfg s) (honce : RecordsOnce s)
    (hprompt : Prompt cfg s e) (hs : step cfg s e = some t) : Earned t := by
  cases step_cases hs with
  | advance _ | refuse _ _ | proceed _ _ | goOn _ => exact h.congr rfl rfl
  | @admitted c _ probe _ _ hcheck =>
    rcases preCallCheck_cases hcount.stored hcheck with ⟨hst,_,rfl⟩ | ⟨hst,rfl,rfl,_⟩
    · exact (h.admit_closed (c := c) (p := probe) hst).congr rfl rfl
    · exact (h.admit_probe (c := c) hst).congr rfl rfl
  | @perform c op _ _ hp =>
    cases op with
    | success =>
      exact (earned_success h (honce.unrecorded hp rfl) (prompt_success hprompt hp)
        (perform_success c hcount.stored)).congr rfl rfl
    | failure e =>
      have hfail : Earned (s.perform cfg c (.failure e)) := earned_failure h
      exact hfail.congr rfl rfl
    | release => exact ⟨h.idle,h.probes,h.earned⟩

theorem run_earned (ht : 1 ≤ cfg.failureThreshold)
    (h : Run (restrict (Steps (step cfg)) (Prompt cfg)) (System.start now) es s) : Earned s := by
  have hempty : Run (Steps (step cfg)) (System.start now) [] (System.start now) := .done _
  have hinv := h.invariant (I := fun s => Counted cfg s ∧ RecordsOnce s ∧ Earned s)
    (fun _ _ _ hi hs => ⟨step_counted ht hi.1 hs.2,step_recordsOnce hi.2.1 hs.2,
      step_earned hi.2.2 hi.1 hi.2.1 hs.1 hs.2⟩)
    ⟨counted_start ht now,run_recordsOnce hempty,
      ⟨fun _ => rfl,fun ho => (by cases ho),nofun⟩⟩
  exact hinv.2.2

theorem close_probed (h : Earned s) (hcount : Counted cfg s) (honce : RecordsOnce s)
    (hprompt : Prompt cfg s e) (hs : step cfg s e = some t) (hopened : s.breaker.stored = .opened)
    (hclosed : t.breaker.stored = .closed) :
    ∃ cs, cfg.successThreshold ≤ cs.length ∧ Probed t.log cs := by
  have hkept : ∀ {u : System}, u.breaker.stored = s.breaker.stored →
      u.breaker.stored = .closed → False := by
    intro u hu hc
    cases hopened.symm.trans (hu.symm.trans hc)
  cases step_cases hs with
  | advance _ | refuse _ _ | proceed _ _ | goOn _ => exact (hkept rfl hclosed).elim
  | admitted _ hcheck =>
    rcases preCallCheck_cases hcount.stored hcheck with ⟨_,_,rfl⟩ | ⟨_,_,rfl,_⟩
    · exact (hkept rfl hclosed).elim
    · exact (hkept rfl hclosed).elim
  | @perform c op _ _ hp =>
    cases op with
    | success =>
      have hprobed := closing_probed h (honce.unrecorded hp rfl) (prompt_success hprompt hp)
        (perform_success c hcount.stored) hopened hclosed
      exact hprobed
    | failure e =>
      have hopen : (s.breaker.recordFailure cfg s.now e).stored = .opened := by
        unfold Breaker.recordFailure
        split_ifs <;> simp [hopened]
      cases hopen.symm.trans hclosed
    | release => exact (hkept rfl hclosed).elim

/-- The stored state counts failures, an open breaker admits nobody before its
recovery timeout, and it closes only after enough probes have succeeded. -/
theorem breaker_safe {cfg : Settings} (ht : 1 ≤ cfg.failureThreshold) {now : ℚ}
    {es : List Event} {s : System} (h : Run (Steps (step cfg)) (System.start now) es s) :
    (s.breaker.stored = .closed ↔ failuresSinceReset s.log < cfg.failureThreshold) ∧
      (∀ c kind t, step cfg s (.start c kind) = some t → t.calls.get? c ≠ some .refused →
        s.breaker.stored = .opened →
          ∃ x, lastFailure s.log = some x ∧ cfg.recoveryTimeoutSeconds ≤ s.now-x) ∧
      (Run (restrict (Steps (step cfg)) (Prompt cfg)) (System.start now) es s →
        ∀ e t, Prompt cfg s e → step cfg s e = some t → s.breaker.stored = .opened →
          t.breaker.stored = .closed →
            ∃ cs, cfg.successThreshold ≤ cs.length ∧ Probed t.log cs) := by
  have hcount : Counted cfg s :=
    h.invariant (fun _ _ _ hi hs => step_counted ht hi hs) (counted_start ht _)
  refine ⟨?_,?_,?_⟩
  · rw [hcount.closed,hcount.failures]
  · intro c kind t hs hin hst
    cases step_cases hs with
    | refuse _ _ =>
      refine absurd ?_ hin
      simp only [System.put,Dict.get?_set,if_true]
    | admitted _ hcheck =>
      rcases preCallCheck_cases hcount.stored hcheck with ⟨hc,_⟩ | ⟨_,_,_,hx⟩
      · cases hc.symm.trans hst
      · rwa [hcount.last] at hx
  · intro hrun e t hprompt hs hopened hclosed
    exact close_probed (run_earned ht hrun) hcount (run_recordsOnce h) hprompt hs hopened hclosed

def eagerSettings : Settings := ⟨1,60,1⟩

/-- A failure opens the breaker, and after the timeout a probe is about to
record its success. -/
def recoveringEvents : List Event :=
  [.start 0 .call,.proceed 0 (.ended (.raised .timeout)),.act 0,.act 0,.advance 60,
    .start 1 .call,.proceed 1 (.ended .returned)]

theorem probe_closes_breaker :
    ∃ s t, Run (restrict (Steps (step eagerSettings)) (Prompt eagerSettings)) (System.start 0)
        recoveringEvents s ∧ step eagerSettings s (.act 1) = some t ∧
      (s.breaker.stored = .closed ↔ failuresSinceReset s.log < 1) ∧
      ∃ cs, 1 ≤ cs.length ∧ Probed t.log cs := by
  obtain ⟨s,hrun,hs⟩ := exists_run_of_exec (f := step eagerSettings) (G := Prompt eagerSettings)
    (s := System.start 0) (l := recoveringEvents)
    (p := fun s => Prompt eagerSettings s (.act 1) ∧ s.breaker.stored = .opened ∧
      (step eagerSettings s (.act 1)).any fun t => t.breaker.stored = .closed) (by decide +kernel)
  obtain ⟨hprompt,hopened,hclose⟩ := hs
  obtain ⟨t,ht,hclosed⟩ := (Option.any_eq_true _ _).mp hclose
  have hpos : 1 ≤ eagerSettings.failureThreshold := by decide
  have hsafe := breaker_safe hpos hrun.erase
  exact ⟨s,t,hrun,ht,hsafe.1,hsafe.2.2 hrun _ t hprompt ht hopened (by simpa using hclosed)⟩

/-- Two calls are admitted by the closed breaker. One fails and opens it, and
the other ends well after the timeout. -/
def stragglerEvents : List Event :=
  [.start 0 .call,.start 1 .call,.proceed 0 (.ended (.raised .timeout)),.act 0,.act 0,
    .advance 60,.proceed 1 (.ended .returned)]

theorem straggler_closes_breaker :
    ∃ s t, Run (Steps (step eagerSettings)) (System.start 0) stragglerEvents s ∧
      step eagerSettings s (.act 1) = some t ∧ s.breaker.stored = .opened ∧
      t.breaker.stored = .closed ∧
      t.log = [.closed,.succeeded 1 .halfOpen,.failed 0,.admitted 1 false,.admitted 0 false] := by
  obtain ⟨s,hrun,hopened,hclose⟩ := exists_steps_of_exec (f := step eagerSettings)
    (s := System.start 0) (l := stragglerEvents)
    (p := fun s => s.breaker.stored = .opened ∧ (step eagerSettings s (.act 1)).any fun t =>
      t.breaker.stored = .closed ∧
      t.log = [.closed,.succeeded 1 .halfOpen,.failed 0,.admitted 1 false,.admitted 0 false])
    (by decide +kernel)
  obtain ⟨t,ht,hclosed⟩ := (Option.any_eq_true _ _).mp hclose
  simp only [decide_eq_true_eq] at hclosed
  exact ⟨s,t,hrun,ht,hopened,hclosed⟩

theorem failuresSinceReset_of_none {l : List Entry} (h : lastFailure l = none) :
    failuresSinceReset l = 0 := by
  induction l with
  | nil => rfl
  | cons e l ih =>
    cases e with
    | failed => cases h
    | closed => rfl
    | admitted => exact ih h
    | succeeded c met => cases met <;> first | rfl | exact ih h

/-- One more call, a probe that ends well. -/
theorem probe_ends_well (hstate : s.breaker.state cfg s.now = .halfOpen)
    (hfree : s.breaker.halfOpenProbeInFlight = false) : ∃ fs t, Run (Steps (step cfg)) s fs t ∧
      t.now = s.now ∧ t.breaker = s.breaker.recordSuccess cfg s.now := by
  obtain ⟨c,hc⟩ := Infinite.exists_notMem_finset (s.calls.rows.map Prod.fst).toFinset
  have hnew : s.calls.get? c = none := Dict.get?_eq_none.mpr fun q hq he =>
    hc (List.mem_toFinset.mpr (he ▸ List.mem_map_of_mem hq))
  have hstate' : ∀ b,Breaker.state cfg {s.breaker with halfOpenProbeInFlight := b} s.now =
      .halfOpen := fun _ => hstate
  refine ⟨[.start c .call,.proceed c (.ended .returned),.act c,.act c],_,
    .step (by simp [Steps,step,stepStart,hnew,Breaker.preCallCheck,hstate,hfree]; rfl)
      (.step (by simp [Steps,step,System.put,Dict.get?_set,Phase.local,Kind.admitted]; rfl)
        (.step (by simp [Steps,step,System.put,Dict.get?_set,stepAct,call,releaseIf]; rfl)
          (.single (by simp [Steps,step,System.put,Dict.get?_set,stepAct]; rfl)))),?_,?_⟩
  · rfl
  · simp only [System.perform,Breaker.releaseHalfOpenProbe,Breaker.recordSuccess,hstate,hstate']
    split_ifs <;> simp [← hfree]

theorem halfOpen_closes (hstate : s.breaker.state cfg s.now = .halfOpen)
    (hfree : s.breaker.halfOpenProbeInFlight = false) :
    ∃ fs t, Run (Steps (step cfg)) s fs t ∧ t.breaker.stored = .closed := by
  obtain ⟨n,hn⟩ : ∃ n, cfg.successThreshold ≤ s.breaker.successCount+n := ⟨_,Nat.le_add_left _ _⟩
  induction n generalizing s with
  | zero =>
    obtain ⟨fs,t,hrun,-,ht⟩ := probe_ends_well hstate hfree
    refine ⟨fs,t,hrun,?_⟩
    rw [ht,Breaker.recordSuccess,hstate]
    simp only
    rw [if_pos (by omega)]
  | succ n ih =>
    obtain ⟨fs,t,hrun,hnow,ht⟩ := probe_ends_well hstate hfree
    rw [Breaker.recordSuccess,hstate] at ht
    simp only at ht
    split_ifs at ht
    · exact ⟨fs,t,hrun,by rw [ht]⟩
    · obtain ⟨gs,u,hrest,hu⟩ := ih (s := t) (by rw [ht,hnow]; exact hstate) (by rw [ht]; exact hfree)
        (by rw [ht]; simp only; omega)
      exact ⟨_,u,hrun.append hrest,hu⟩

/-- Whatever has happened, a breaker whose slot is free can close again. -/
theorem free_breaker_recovers (ht : 1 ≤ cfg.failureThreshold) {now : ℚ} {es : List Event}
    (h : Run (Steps (step cfg)) (System.start now) es s)
    (hfree : s.breaker.halfOpenProbeInFlight = false) :
    ∃ fs t, Run (Steps (step cfg)) s fs t ∧ t.breaker.stored = .closed := by
  have hcount : Counted cfg s :=
    h.invariant (fun _ _ _ hi hs => step_counted ht hi hs) (counted_start ht _)
  cases hlast : s.breaker.lastFailureTime with
  | none =>
    refine ⟨[],s,.done s,hcount.closed.mpr ?_⟩
    rw [hcount.failures,failuresSinceReset_of_none (hcount.last.symm.trans hlast)]
    omega
  | some x =>
    rcases state_cases cfg (max s.now (x+cfg.recoveryTimeoutSeconds)) hcount.stored with
      ⟨hclosed,-⟩ | ⟨-,hopened⟩ | ⟨-,hhalf,-⟩
    · exact ⟨[],s,.done s,hclosed⟩
    · simp only [Breaker.state,hlast] at hopened
      split_ifs at hopened with hwait
      exact absurd ⟨hopened,le_sub_iff_add_le'.mpr (le_max_right _ _)⟩ hwait
    · obtain ⟨fs,t,hrun,hclosed⟩ := halfOpen_closes (s := {s with now := max s.now _}) hhalf hfree
      exact ⟨.advance _::fs,t,.step (if_pos (le_max_left _ _)) hrun,hclosed⟩

theorem opened_breaker_recovers :
    ∃ s fs t, s.breaker.stored = .opened ∧ Run (Steps (step eagerSettings)) s fs t ∧
      t.breaker.stored = .closed := by
  obtain ⟨s,hrun,hopened,hfree⟩ := exists_steps_of_exec (f := step eagerSettings)
    (s := System.start 0) (l := recoveringEvents.take 4)
    (p := fun s => s.breaker.stored = .opened ∧ s.breaker.halfOpenProbeInFlight = false)
    (by decide +kernel)
  obtain ⟨fs,t,hfs,hclosed⟩ := free_breaker_recovers (by decide) hrun hfree
  exact ⟨s,fs,t,hopened,hfs,hclosed⟩

end CodexLb.CircuitBreaker
