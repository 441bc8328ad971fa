import CodexLb.KeyedTable
import CodexLb.Runs
import Mathlib.Data.List.Count

/-!
# The rate limiter of the dashboard

`check_and_increment` reads the clock of its process and later runs one statement
that records the attempt if fewer than the limit were recorded at or after the
start of its window. `cleanup` deletes the rows of every type before a cutoff.
The clocks of the processes go forward and may differ.

The log of accepted attempts and the cutoffs of the cleanups are kept beside the
table. A cleanup may delete rows that lie in the window of a call that read its
clock before the cleanup and runs its statement after it; without such a call every
window is bounded.
-/
namespace CodexLb.RateLimiter
open Runs

/-- The constructor refuses a limit or a window that is not positive. -/
structure Limiter where
  type : String
  maxAttempts : ℕ
  windowSeconds : ℕ
  limited : 0 < maxAttempts
  timed : 0 < windowSeconds

structure Attempt where
  key : String
  type : String
  attemptedAt : ℤ
  deriving DecidableEq

/-- Times are in microseconds. -/
def ago (now : ℤ) (seconds : ℕ) : ℤ := now-1000000*seconds

def Limiter.windowStart (l : Limiter) (now : ℤ) : ℤ := ago now l.windowSeconds

def recorded (l : Limiter) (a : Attempt) (table : List Attempt) : List Attempt :=
  table.filter fun r => r.key = a.key ∧ r.type = a.type ∧ l.windowStart a.attemptedAt ≤ r.attemptedAt

/-- The seconds that the error of a refused attempt names, from the oldest row in
its window. The division goes towards zero. -/
def retryAfter (l : Limiter) (a : Attempt) (table : List Attempt) : ℤ :=
  match ((recorded l a table).map Attempt.attemptedAt).min? with
  | none => l.windowSeconds
  | some oldest => max 1 ((oldest+1000000*l.windowSeconds-a.attemptedAt).tdiv 1000000)

/-- Calls that have read their clock are pending. A refused attempt is logged with
the table its statement saw, and an error with its `retry_after`. -/
structure State where
  clocks : List ℤ
  pending : List Attempt
  table : List Attempt
  accepted : List Attempt
  rejected : List (Attempt × List Attempt)
  errors : List (Attempt × ℤ)
  cutoffs : List ℤ

def start (clocks : List ℤ) (table : List Attempt) : State := ⟨clocks,[],table,[],[],[],[]⟩

inductive Event where
  | tick (p : ℕ) (now : ℤ)
  | call (p : ℕ) (type key : String)
  | statement (a : Attempt)
  | refuse (a : Attempt)
  | cleanup (p olderThanSeconds : ℕ)

abbrev Limiters := KeyedTable Limiter.type

def advance (limiters : Limiters) (s : State) : Event → Option State
  | .tick p now =>
    match s.clocks[p]? with
    | some clock => if clock ≤ now then some {s with clocks := s.clocks.set p now} else none
    | none => none
  | .call p type key =>
    match s.clocks[p]? with
    | some now => some {s with pending := ⟨key,type,now⟩::s.pending}
    | none => none
  | .statement a =>
    match limiters.find? a.type with
    | some l =>
      if a ∈ s.pending then
        if (recorded l a s.table).length < l.maxAttempts then
          some {s with pending := s.pending.erase a,table := s.table++[a],
                       accepted := s.accepted++[a]}
        else some {s with pending := s.pending.erase a,rejected := (a,s.table)::s.rejected}
      else none
    | none => none
  | .refuse a =>
    match limiters.find? a.type with
    | some l =>
      if a ∈ s.rejected.map Prod.fst then
        some {s with errors := (a,retryAfter l a s.table)::s.errors}
      else none
    | none => none
  | .cleanup p olderThanSeconds =>
    match s.clocks[p]? with
    | some now =>
      some {s with table := s.table.filter fun r => ago now olderThanSeconds ≤ r.attemptedAt,
                   cutoffs := ago now olderThanSeconds::s.cutoffs}
    | none => none

/-- A cleanup keeps what is younger than every window, and the clock of its process
is not ahead of the others. -/
def Regular (limiters : Limiters) (s : State) : Event → Prop
  | .cleanup p olderThanSeconds =>
    (∀ l ∈ limiters.rows,l.windowSeconds ≤ olderThanSeconds) ∧
      ∀ now ∈ s.clocks[p]?,∀ clock ∈ s.clocks,now ≤ clock
  | _ => True

def Timely (limiters : Limiters) (s : State) : Event → Prop
  | .cleanup p olderThanSeconds =>
    ∀ now ∈ s.clocks[p]?,∀ a ∈ s.pending,∀ l ∈ limiters.rows,l.type = a.type →
      ago now olderThanSeconds ≤ l.windowStart a.attemptedAt
  | _ => True

instance (limiters : Limiters) (s : State) : DecidablePred (Regular limiters s)
  | .tick _ _ | .call _ _ _ | .statement _ | .refuse _ => inferInstanceAs (Decidable True)
  | .cleanup _ _ => inferInstanceAs (Decidable (_ ∧ _))

instance (limiters : Limiters) (s : State) : DecidablePred (Timely limiters s)
  | .tick _ _ | .call _ _ _ | .statement _ | .refuse _ => inferInstanceAs (Decidable True)
  | .cleanup p n => inferInstanceAs (Decidable (∀ now ∈ s.clocks[p]?,∀ a ∈ s.pending,
      ∀ l ∈ limiters.rows,l.type = a.type → ago now n ≤ l.windowStart a.attemptedAt))

def inWindow (l : Limiter) (key : String) (first : ℤ) (as : List Attempt) : List Attempt :=
  as.filter fun r => r.key = key ∧ r.type = l.type ∧ l.windowStart r.attemptedAt ≤ first ∧
    first ≤ r.attemptedAt

/-- What a run keeps. Cutoffs lie before the window of every call that is pending or
may still come, so what a window holds is still in the table. -/
structure Bounded (limiters : Limiters) (s : State) : Prop where
  clocked : ∀ c ∈ s.cutoffs,∀ now ∈ s.clocks,∀ l ∈ limiters.rows,c ≤ l.windowStart now
  stamped : ∀ c ∈ s.cutoffs,∀ a ∈ s.pending,∀ l ∈ limiters.rows,l.type = a.type →
    c ≤ l.windowStart a.attemptedAt
  kept : (s.accepted.filter fun a => ∀ c ∈ s.cutoffs,c ≤ a.attemptedAt).Sublist s.table
  bounded : ∀ l ∈ limiters.rows,∀ key first,(inWindow l key first s.accepted).length ≤ l.maxAttempts
  full : ∀ r ∈ s.rejected,∀ l ∈ limiters.rows,l.type = r.1.type →
    l.maxAttempts ≤ (recorded l r.1 r.2).length

variable {limiters : Limiters} {s : State} {e : Event}

theorem start_bounded {clocks : List ℤ} {table : List Attempt} :
    Bounded limiters (start clocks table) where
  clocked := nofun
  stamped := nofun
  kept := List.nil_sublist _
  bounded _ _ _ _ := Nat.zero_le _
  full := nofun

variable {a : Attempt} {l : Limiter}

/-- What the interval of a new attempt holds is counted by its statement. -/
theorem inWindow_le_recorded (h : Bounded limiters s) (hpending : a ∈ s.pending)
    (hl : l ∈ limiters.rows) (htype : l.type = a.type) {first : ℤ}
    (hfirst : l.windowStart a.attemptedAt ≤ first) :
    (inWindow l a.key first s.accepted).length ≤ (recorded l a s.table).length := by
  have hkept := (h.kept.filter fun r => r.key = a.key ∧ r.type = a.type ∧
    l.windowStart a.attemptedAt ≤ r.attemptedAt).length_le
  refine le_trans (List.Sublist.length_le ?_) hkept
  rw [List.filter_filter,inWindow]
  apply List.monotone_filter_right
  intro r hr
  simp only [decide_eq_true_eq,Bool.and_eq_true] at hr ⊢
  obtain ⟨hkey,hrtype,-,hle⟩ := hr
  have hlower := hfirst.trans hle
  exact ⟨⟨hkey,hrtype.trans htype,hlower⟩,
    fun c hc => (h.stamped c hc a hpending l hl htype).trans hlower⟩

theorem accept_bounded (h : Bounded limiters s) (hpending : a ∈ s.pending)
    (hl : l ∈ limiters.rows) (htype : l.type = a.type)
    (hroom : (recorded l a s.table).length < l.maxAttempts) :
    Bounded limiters {s with pending := s.pending.erase a,table := s.table++[a],
                             accepted := s.accepted++[a]} where
  clocked := h.clocked
  stamped c hc b hb := h.stamped c hc b (List.mem_of_mem_erase hb)
  kept := by
    rw [List.filter_append]
    exact h.kept.append List.filter_sublist
  bounded m hm key first := by
    rw [inWindow,List.filter_append,List.length_append]
    have hbound := h.bounded m hm key first
    by_cases hin : a.key = key ∧ a.type = m.type ∧ m.windowStart a.attemptedAt ≤ first ∧
        first ≤ a.attemptedAt
    · obtain ⟨rfl,hmtype,hfirst,-⟩ := hin
      obtain rfl : m = l := limiters.eq_of_key hm hl (hmtype.symm.trans htype.symm)
      have hcount := inWindow_le_recorded h hpending hl htype hfirst
      have hone : ([a].filter fun r => r.key = a.key ∧ r.type = m.type ∧
          m.windowStart r.attemptedAt ≤ first ∧ first ≤ r.attemptedAt).length ≤ 1 :=
        List.length_filter_le _ _
      rw [inWindow] at hcount
      omega
    · rw [List.filter_cons_of_neg (by simpa using hin)]
      exact hbound
  full := h.full

theorem cleanup_bounded (h : Bounded limiters s) {p n : ℕ} {now : ℤ}
    (hclock : s.clocks[p]? = some now) (hregular : Regular limiters s (.cleanup p n))
    (htimely : Timely limiters s (.cleanup p n)) :
    Bounded limiters {s with table := s.table.filter fun r => ago now n ≤ r.attemptedAt,
                             cutoffs := ago now n::s.cutoffs} where
  clocked c hc clock hmem l hl := by
    rcases List.mem_cons.mp hc with rfl | hc
    · have hwindow := hregular.1 l hl
      have hbehind := hregular.2 now hclock clock hmem
      simp only [Limiter.windowStart,ago]
      omega
    · exact h.clocked c hc clock hmem l hl
  stamped c hc a ha l hl htype := by
    rcases List.mem_cons.mp hc with rfl | hc
    · exact htimely now hclock a ha l hl htype
    · exact h.stamped c hc a ha l hl htype
  kept := by
    have hkept := h.kept.filter fun r => ago now n ≤ r.attemptedAt
    rw [List.filter_filter] at hkept
    simpa only [List.forall_mem_cons,Bool.decide_and] using hkept
  bounded := h.bounded
  full := h.full

theorem advance_bounded (h : Bounded limiters s) (hregular : Regular limiters s e)
    (htimely : Timely limiters s e) {t : State} (hstep : advance limiters s e = some t) :
    Bounded limiters t := by
  cases e with
  | tick p now =>
    simp only [advance] at hstep
    split at hstep
    · next clock hclock =>
      split_ifs at hstep with hle
      cases hstep
      refine ⟨fun c hc m hm l hl => ?_,h.stamped,h.kept,h.bounded,h.full⟩
      rcases List.mem_or_eq_of_mem_set hm with hm | rfl
      · exact h.clocked c hc m hm l hl
      · have hold := h.clocked c hc clock (List.mem_of_getElem? hclock) l hl
        simp only [Limiter.windowStart,ago] at hold ⊢
        omega
    · cases hstep
  | call p type key =>
    simp only [advance] at hstep
    split at hstep
    · next now hclock =>
      cases hstep
      refine ⟨h.clocked,fun c hc a ha l hl htype => ?_,h.kept,h.bounded,h.full⟩
      rcases List.mem_cons.mp ha with rfl | ha
      · exact h.clocked c hc now (List.mem_of_getElem? hclock) l hl
      · exact h.stamped c hc a ha l hl htype
    · cases hstep
  | statement a =>
    simp only [advance] at hstep
    split at hstep
    · next l hl =>
      obtain ⟨hmem,htype⟩ := (limiters.find?_eq_some _ _).mp hl
      split_ifs at hstep with hpending hroom
      · cases hstep
        exact accept_bounded h hpending hmem htype hroom
      · cases hstep
        refine ⟨h.clocked,fun c hc b hb => h.stamped c hc b (List.mem_of_mem_erase hb),h.kept,
          h.bounded,List.forall_mem_cons.mpr ⟨fun m hm hmtype => ?_,h.full⟩⟩
        obtain rfl : m = l := limiters.eq_of_key hm hmem (hmtype.trans htype.symm)
        exact Nat.le_of_not_lt hroom
    · cases hstep
  | refuse a =>
    simp only [advance] at hstep
    split at hstep
    · split_ifs at hstep
      cases hstep
      exact ⟨h.clocked,h.stamped,h.kept,h.bounded,h.full⟩
    · cases hstep
  | cleanup p n =>
    simp only [advance] at hstep
    split at hstep
    · next now hclock =>
      cases hstep
      exact cleanup_bounded h hclock hregular htimely
    · cases hstep

/-- While no cleanup cuts into the window of a pending call, every closed interval as
long as the window holds at most the limit of accepted attempts, and a refused
attempt found the limit recorded in its own window. -/
theorem sliding_window {clocks : List ℤ} {table : List Attempt} {es : List Event} {t : State}
    (h : Run (restrict (Steps (advance limiters)) fun s e =>
      Regular limiters s e ∧ Timely limiters s e) (start clocks table) es t) :
    (∀ l ∈ limiters.rows,∀ key first,
      (inWindow l key first t.accepted).length ≤ l.maxAttempts) ∧
    ∀ r ∈ t.rejected,∀ l ∈ limiters.rows,l.type = r.1.type →
      l.maxAttempts ≤ (recorded l r.1 r.2).length := by
  have hbounded := h.invariant (I := Bounded limiters)
    (fun _ _ _ hs hst => advance_bounded hs hst.1.1 hst.1.2 hst.2) (start_bounded)
  exact ⟨hbounded.bounded,hbounded.full⟩

private def single : Limiters := ⟨[⟨"totp",1,60,by decide,by decide⟩],by decide⟩

theorem second_attempt_refused :
    ∃ t,Run (restrict (Steps (advance single)) fun s e => Regular single s e ∧ Timely single s e)
      (start [0] []) [.call 0 "totp" "a",.statement ⟨"a","totp",0⟩,.tick 0 59000000,
        .call 0 "totp" "a",.statement ⟨"a","totp",59000000⟩,.cleanup 0 60] t ∧
      t.accepted.length = 1 ∧ t.rejected.length = 1 ∧
      ∀ l ∈ single.rows,∀ key first,(inWindow l key first t.accepted).length ≤ l.maxAttempts :=
  exists_run_with (p := fun t => t.accepted.length = 1 ∧ t.rejected.length = 1)
    (fun _ hrun h => ⟨h.1,h.2,(sliding_window hrun).1⟩) (by decide +kernel)

/-- The second call reads its clock before a cleanup deletes the row of the first,
which lies in its window, and runs its statement after it. -/
theorem cleanup_admits_second :
    ∃ t,Run (restrict (Steps (advance single)) (Regular single)) (start [0] [])
      [.call 0 "totp" "a",.statement ⟨"a","totp",0⟩,.tick 0 59000000,.call 0 "totp" "a",
        .tick 0 61000000,.cleanup 0 60,.statement ⟨"a","totp",59000000⟩] t ∧
      ∃ l ∈ single.rows,∃ key first,
        l.maxAttempts < (inWindow l key first t.accepted).length := by
  refine exists_run_with (p := fun t => ∃ l ∈ single.rows,
    l.maxAttempts < (inWindow l "a" 0 t.accepted).length) ?_ (by decide +kernel)
  rintro t - ⟨l,hl,hlt⟩
  exact ⟨l,hl,"a",0,hlt⟩

end CodexLb.RateLimiter
