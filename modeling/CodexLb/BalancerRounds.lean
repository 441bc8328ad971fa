import CodexLb.BalancerRaces

/-!
# The selections of a blocked account

A failure marks an account in its runtime and in its row. From then on every
selection builds the state of the account from both and from the latest usage
rows, runs `select_account` over the pool one or more times, and writes the
state back to the runtime and the row. What is written is the input of the next
build. A restart loses the runtime and the selection under way.

The other states of the pool are arbitrary. Nobody else writes to the account,
so the row at the time of the writing is the one that was read. The copy that the
grace period of a sticky session selects belongs to rate limits and is left out.
-/
namespace CodexLb.LoadBalancer
open TokenRefresh (AccountStatus)
open Runs

inductive Failure where
  | rateLimit (jitter : ℚ)
  | quotaExceeded
  deriving DecidableEq, Repr

def Failure.handle (env : Env) (now : ℚ) (error : UpstreamError) :
    Failure → AccountState → AccountState
  | .rateLimit jitter => handleRateLimit env now jitter error
  | .quotaExceeded => handleQuotaExceeded now error

structure Build where
  now : ℚ
  primary : Option UsageEntry
  secondary : Option UsageEntry
  deriving DecidableEq, Repr

def Build.quotaEntry (x : Build) : Option UsageEntry :=
  if x.primary.any fun p => shouldUseWeeklyPrimary p x.secondary then x.primary else x.secondary

def Build.stateAndRuntime (env : Env) (x : Build) (row : Account) (runtime : RuntimeState) :
    AccountState × RuntimeState :=
  stateFromAccount env x.now row x.primary x.secondary runtime

/-- An account between two moves: its row, its runtime, the state of a selection
under way, and the builds made so far. -/
structure Standing where
  row : Account
  runtime : RuntimeState
  state : Option AccountState
  builds : List Build
  now : ℚ
  deriving DecidableEq, Repr

/-- `mark_rate_limit` or `mark_quota_exceeded`. -/
def Standing.marked (env : Env) (now : ℚ) (error : UpstreamError) (account : Account)
    (runtime : RuntimeState) (f : Failure) : Standing where
  row := account.withState (f.handle env now error (stateFor env account runtime))
  runtime := mark env account (f.handle env now error) runtime
  state := none
  builds := []
  now := now

inductive Move where
  | build (x : Build)
  | select (now : ℚ) (c : Chance) (o : SelectOptions) (before after : List AccountState)
  | write (now : ℚ) (selected : Bool)
  | restart (now : ℚ)

def Move.now : Move → ℚ
  | .build x => x.now
  | .select now _ _ _ _ => now
  | .write now _ => now
  | .restart now => now

namespace Standing

def move (env : Env) (s : Standing) : Move → Option Standing
  | .build x =>
    let built := x.stateAndRuntime env s.row s.runtime
    some {s with runtime := built.2,state := some built.1,builds := x::s.builds}
  | .select now c o before after => do
      let a ← s.state
      let left ← (selectAccount c o now (before++a::after)).2[before.length]?
      some {s with state := some left}
  | .write now selected => do
      let a ← s.state
      some {s with
        row := (persistStateIfCurrent s.row s.row a).2
        runtime := (syncRuntimeState now s.row a selected none s.runtime).2
        state := none}
  | .restart _ => some {s with runtime := {},state := none}

/-- The clock never goes back. -/
def step (env : Env) (s : Standing) (m : Move) : Option Standing :=
  if s.now ≤ m.now then (s.move env m).map fun t => {t with now := m.now} else none

end Standing

def Account.Holds (row : Account) (a : AccountState) : Prop :=
  row.status = a.status ∧ row.resetAt = storedTime a.resetAt ∧
    row.blockedAt = storedTime a.blockedAt

variable {a : AccountState}

theorem persisted_holds {row : Account} : (persistStateIfCurrent row row a).2.Holds a := by
  unfold persistStateIfCurrent
  split_ifs with hsame hcurrent
  · exact ⟨hsame.1,hsame.2.2.1,hsame.2.2.2⟩
  · exact ⟨rfl,rfl,rfl⟩
  · exact absurd ⟨rfl,rfl,rfl,rfl⟩ hcurrent

variable {now : ℚ}

theorem selectAccount_own {c : Chance} {o : SelectOptions} {before after : List AccountState} :
    (selectAccount c o now (before++a::after)).2[before.length]? = some (screen now a).2 := by
  rw [selectAccount_states]
  simp

theorem Standing.step_cases {env : Env} {s t : Standing} {m : Move} (h : s.step env m = some t) :
    s.now ≤ m.now ∧ t.now = m.now ∧
    ((∃ x, m = .build x ∧ t.row = s.row ∧ t.builds = x::s.builds ∧
        t.runtime = (x.stateAndRuntime env s.row s.runtime).2 ∧
        t.state = some (x.stateAndRuntime env s.row s.runtime).1) ∨
      (∃ a, s.state = some a ∧ t.row = s.row ∧ t.runtime = s.runtime ∧ t.builds = s.builds ∧
        t.state = some (screen m.now a).2) ∨
      (∃ a selected, s.state = some a ∧ t.row.Holds a ∧ t.builds = s.builds ∧ t.state = none ∧
        t.runtime = (syncRuntimeState m.now s.row a selected none s.runtime).2) ∨
      (t.row = s.row ∧ t.runtime = {} ∧ t.builds = s.builds ∧ t.state = none)) := by
  unfold step at h
  split_ifs at h with hnow
  obtain ⟨u,hu,rfl⟩ := Option.map_eq_some_iff.mp h
  refine ⟨hnow,rfl,?_⟩
  cases m with
  | build x =>
    cases hu
    exact .inl ⟨x,rfl,rfl,rfl,rfl,rfl⟩
  | select now c o before after =>
    obtain ⟨a,ha,hleft⟩ := Option.bind_eq_some_iff.mp hu
    rw [selectAccount_own] at hleft
    cases hleft
    exact .inr (.inl ⟨a,ha,rfl,rfl,rfl,rfl⟩)
  | write now selected =>
    obtain ⟨a,ha,hleft⟩ := Option.bind_eq_some_iff.mp hu
    cases hleft
    exact .inr (.inr (.inl ⟨a,selected,ha,persisted_holds,rfl,rfl,rfl⟩))
  | restart now =>
    cases hu
    exact .inr (.inr (.inr ⟨rfl,rfl,rfl,rfl⟩))

def Build.input (env : Env) (x : Build) (row : Account) (runtime : RuntimeState) : QuotaInput where
  status := row.status
  primaryUsed := x.primary.map (·.usedPercent)
  primaryReset := x.primary.bind (·.resetAt)
  primaryWindowMinutes := x.primary.bind (·.windowMinutes)
  runtimeReset := effectiveReset env x.now row x.primary x.quotaEntry runtime
  secondaryUsed := x.quotaEntry.map (·.usedPercent)
  secondaryReset := x.quotaEntry.bind (·.resetAt)

section
variable (env : Env) (x : Build) (row : Account) (runtime : RuntimeState)

theorem built_status : (x.stateAndRuntime env row runtime).1.status =
    (applyUsageQuota x.now (x.input env row runtime)).1 := rfl

theorem built_resetAt : (x.stateAndRuntime env row runtime).1.resetAt =
    (applyUsageQuota x.now (x.input env row runtime)).2.2 := rfl

theorem built_blockedAt : (x.stateAndRuntime env row runtime).1.blockedAt =
    if (x.stateAndRuntime env row runtime).1.status = .quotaExceeded ∨
      (x.stateAndRuntime env row runtime).1.status = .rateLimited
    then effectiveBlockedAt row runtime else none := rfl

theorem input_secondary (h : (x.input env row runtime).secondaryUsed = none) :
    (x.input env row runtime).secondaryReset = none := by
  rw [Build.input,Option.map_eq_none_iff] at h
  simp [Build.input,h]

end

theorem applyPrimaryQuota_quota (now : ℚ) {q : QuotaInput}
    (h : ∀ u, q.primaryUsed = some u → u < 100) (reset : Option ℚ) :
    (applyPrimaryQuota now q .quotaExceeded reset).1 = .quotaExceeded ∧
      (applyPrimaryQuota now q .quotaExceeded reset).2.2 = reset := by
  unfold applyPrimaryQuota
  cases hu : q.primaryUsed with
  | none => exact ⟨rfl,rfl⟩
  | some u =>
    have hlt : ¬ 100 ≤ u := not_le.mpr (h u hu)
    simp [hlt]

theorem screen_of_not_reached (hstatus : a.status = .rateLimited ∨ a.status = .quotaExceeded)
    (h : reached now a.resetAt = false) : (screen now a).2 = a := by
  rcases hstatus with hs | hs <;> simp [screen,hs,h]

theorem truncate_intCast (z : ℤ) : truncate (z : ℚ) = z := by
  unfold truncate
  split_ifs
  · exact Int.floor_intCast z
  · exact Int.ceil_intCast z

theorem storedTime_intCast {z : ℤ} (h : z ≠ 0) : storedTime (some (z : ℚ)) = some z := by
  simp [storedTime,h,truncate_intCast]

def aloneAt (now : ℚ) (primary secondary : Option UsageEntry) : List Move :=
  [.build ⟨now,primary,secondary⟩,
    .select now sampleChance ⟨false,.usageWeighted,true,false,false⟩ [] [],.write now true]

end CodexLb.LoadBalancer
