import CodexLb.BalancerLogic

/-!
# Account rows, runtime states and how they meet

The balancer keeps a `RuntimeState` per account in memory and the status of
the account in its row. A state for the selection is built from both and from
the latest usage rows; building also moves the health tier of the runtime.
Failures and successes change the runtime under the lock of the account, and
the selection writes its states back with `_sync_runtime_state`.

A function that reads the clock several times in a row is given one reading.
`parse_retry_after` and the capacity table are parameters, and so is the
jitter of a backoff. The columns of a row that the balancer does not look at
are left out.
-/
namespace CodexLb.LoadBalancer
open TokenRefresh (AccountStatus)

structure RuntimeState where
  resetAt : Option ℚ := none
  cooldownUntil : Option ℚ := none
  lastErrorAt : Option ℚ := none
  lastSelectedAt : Option ℚ := none
  errorCount : ℕ := 0
  version : ℕ := 0
  blockedAt : Option ℚ := none
  healthTier : HealthTier := .healthy
  drainEnteredAt : Option ℚ := none
  probeSuccessStreak : ℕ := 0
  deriving DecidableEq, Repr

structure Account where
  id : String
  status : AccountStatus
  deactivationReason : Option String
  resetAt : Option ℤ
  blockedAt : Option ℤ
  planType : String
  deriving DecidableEq, Repr

structure UsageEntry where
  usedPercent : ℚ
  resetAt : Option ℤ
  windowMinutes : Option ℤ
  recordedAt : ℚ
  deriving DecidableEq, Repr

structure Settings where
  usageRefreshIntervalSeconds : ℚ
  softDrainEnabled : Bool
  drainPrimaryThresholdPct : ℚ
  drainSecondaryThresholdPct : ℚ
  drainErrorWindowSeconds : ℚ
  drainErrorCountThreshold : ℕ
  probeQuietSeconds : ℚ
  probeSuccessStreakRequired : ℕ
  deriving DecidableEq, Repr

structure Env where
  settings : Settings
  capacityForPlan : Option String → Option ℚ
  parseRetryAfter : String → Option ℚ

structure UpstreamError where
  message : Option String
  resetsAt : Option ℚ
  resetsInSeconds : Option ℚ
  deriving DecidableEq, Repr

variable (now : ℚ)

def extractResetAt (error : UpstreamError) : Option ℤ :=
  match error.resetsAt,error.resetsInSeconds with
  | some t,_ => some (truncate t)
  | none,some d => some (truncate (now+d))
  | none,none => none

def backoffSeconds (attempt : ℕ) (jitter : ℚ) : ℚ := 200*2^(max attempt 1-1)*jitter/1000

def retryDelay (env : Env) (error : UpstreamError) : Option ℚ :=
  match error.message with
  | some m => if m = "" then none else env.parseRetryAfter m
  | none => none

def handleRateLimit (env : Env) (now jitter : ℚ) (error : UpstreamError) (s : AccountState) :
    AccountState :=
  let errorCount := s.errorCount+1
  {s with
    status := .rateLimited
    errorCount := errorCount
    lastErrorAt := some now
    blockedAt := some now
    resetAt := match extractResetAt now error with
      | some t => some (t : ℚ)
      | none => s.resetAt
    cooldownUntil := some (now+(retryDelay env error).getD (backoffSeconds errorCount jitter))}

def quotaExceededCooldownSeconds : ℚ := 120

def handleQuotaExceeded (error : UpstreamError) (s : AccountState) : AccountState :=
  {s with
    status := .quotaExceeded
    usedPercent := some 100
    blockedAt := some now
    cooldownUntil := some (now+quotaExceededCooldownSeconds)
    resetAt := some ((extractResetAt now error).getD (truncate (now+3600)) : ℤ)}

/-- The tier of a state whose `healthTier` is the tier so far. -/
def evaluateHealthTier (cfg : Settings) (now : ℚ) (drainEnteredAt : Option ℚ)
    (probeSuccessStreak : ℕ) (s : AccountState) : HealthTier :=
  match s.status with
  | .rateLimited | .quotaExceeded | .paused | .deactivated => s.healthTier
  | .active =>
    let shouldDrain := s.usedPercent.any (cfg.drainPrimaryThresholdPct ≤ ·) ||
      s.secondaryUsedPercent.any (cfg.drainSecondaryThresholdPct ≤ ·) ||
      (cfg.drainErrorCountThreshold ≤ s.errorCount &&
        s.lastErrorAt.any fun t => now-t < cfg.drainErrorWindowSeconds)
    match s.healthTier with
    | .healthy => if shouldDrain then .draining else .healthy
    | .draining =>
      if shouldDrain then .draining
      else if drainEnteredAt.any (fun t => cfg.probeQuietSeconds ≤ now-t) then .probing
      else .draining
    | .probing =>
      if shouldDrain then .draining
      else if cfg.probeSuccessStreakRequired ≤ probeSuccessStreak then .healthy
      else .probing

def defaultWindowMinutesPrimary : ℤ := 300
def defaultWindowMinutesSecondary : ℤ := 10080

def shouldPreferPrimaryRow (p q : UsageEntry) : Bool :=
  if p.recordedAt ≠ q.recordedAt then decide (q.recordedAt < p.recordedAt)
  else match p.resetAt,q.resetAt with
    | some a,some b => if a ≠ b then decide (b < a) else true
    | some _,none => true
    | none,some _ => false
    | none,none => true

def shouldUseWeeklyPrimary (p : UsageEntry) (q : Option UsageEntry) : Bool :=
  if p.windowMinutes ≠ some defaultWindowMinutesSecondary then false
  else match q with
    | none => true
    | some q => shouldPreferPrimaryRow p q

def fallbackPrimaryReset (windowMinutes : Option ℤ) : ℚ :=
  let minutes := match windowMinutes with
    | some m => if m = 0 then defaultWindowMinutesPrimary else m
    | none => defaultWindowMinutesPrimary
  now+minutes*60

structure QuotaInput where
  status : AccountStatus
  primaryUsed : Option ℚ
  primaryReset : Option ℤ
  primaryWindowMinutes : Option ℤ
  runtimeReset : Option ℚ
  secondaryUsed : Option ℚ
  secondaryReset : Option ℤ

/-- The second half of `apply_usage_quota`, about the primary window. -/
def applyPrimaryQuota (q : QuotaInput) (status : AccountStatus) (resetAt : Option ℚ) :
    AccountStatus × Option ℚ × Option ℚ :=
  match q.primaryUsed with
  | none => (status,q.primaryUsed,resetAt)
  | some u =>
    if 100 ≤ u then
      (.rateLimited,some 100,match q.primaryReset with
        | some t => some (t : ℚ)
        | none => some (fallbackPrimaryReset now q.primaryWindowMinutes))
    else if status = .rateLimited then
      if ahead now q.runtimeReset then (.rateLimited,some u,q.runtimeReset)
      else (.active,some u,none)
    else (status,some u,resetAt)

/-- Status, used percentage and reset time. -/
def applyUsageQuota (q : QuotaInput) : AccountStatus × Option ℚ × Option ℚ :=
  if q.status = .deactivated ∨ q.status = .paused then (q.status,q.primaryUsed,q.runtimeReset)
  else match q.secondaryUsed with
    | some u =>
      if 100 ≤ u then
        (.quotaExceeded,some 100,match q.secondaryReset with
          | some t => some (t : ℚ)
          | none => q.runtimeReset)
      else if q.status = .quotaExceeded then
        if ahead now q.runtimeReset then applyPrimaryQuota now q .quotaExceeded q.runtimeReset
        else applyPrimaryQuota now q .active none
      else applyPrimaryQuota now q q.status q.runtimeReset
    | none =>
      match q.status,q.secondaryReset with
      | .quotaExceeded,some t => applyPrimaryQuota now q .quotaExceeded (some (t : ℚ))
      | _,_ => applyPrimaryQuota now q q.status q.runtimeReset

/-- `_usage_entry_is_recent_enough`. -/
def recentEnough (env : Env) (now recordedAt : ℚ) : Bool :=
  now-max (env.settings.usageRefreshIntervalSeconds*2) 180 ≤ recordedAt

variable (account : Account)

def effectiveBlockedAt (runtime : RuntimeState) : Option ℚ :=
  match account.blockedAt with
  | some t => some (t : ℚ)
  | none => runtime.blockedAt

def storedReset (runtime : RuntimeState) : Option ℚ :=
  match account.resetAt with
  | some t => if t = 0 then runtime.resetAt else some (t : ℚ)
  | none => runtime.resetAt

/-- A fresh usage row under 100 percent whose window ends later lifts the
reset guard of a quota block that has no block time. -/
def liftUnmarkedQuota (env : Env) (now : ℚ) (account : Account) (blockedAt : Option ℚ)
    (secondary : Option UsageEntry) (reset : Option ℚ) : Option ℚ :=
  match reset,secondary with
  | some r,some e =>
    if account.status = .quotaExceeded ∧ now < r ∧ blockedAt = none ∧
        recentEnough env now e.recordedAt ∧ e.usedPercent < 100 ∧
        e.resetAt.any (fun t => r < (t : ℚ)) then none
    else reset
  | _,_ => reset

def cooldownReady (runtime : RuntimeState) (blockedAt : Option ℚ) : Bool :=
  if account.status = .quotaExceeded then
    blockedAt.any fun b => b+quotaExceededCooldownSeconds ≤ now
  else runtime.cooldownUntil.any (· ≤ now) && runtime.blockedAt.isSome

def freshnessEntry (primary secondary : Option UsageEntry) : Option UsageEntry :=
  match account.status with
  | .quotaExceeded => secondary
  | .rateLimited => primary
  | .active | .paused | .deactivated => none

/-- The reset guard is cleared once a usage row is newer than the block. -/
def effectiveReset (env : Env) (now : ℚ) (account : Account) (primary secondary : Option UsageEntry)
    (runtime : RuntimeState) : Option ℚ :=
  let blockedAt := effectiveBlockedAt account runtime
  let reset := liftUnmarkedQuota env now account blockedAt secondary (storedReset account runtime)
  match blockedAt,freshnessEntry account primary secondary with
  | some b,some e =>
    if cooldownReady now account runtime blockedAt ∧ b < e.recordedAt then none else reset
  | _,_ => reset

def nextHealth (env : Env) (now : ℚ) (state : AccountState) (runtime : RuntimeState) :
    RuntimeState :=
  if env.settings.softDrainEnabled then
    let tier := evaluateHealthTier env.settings now runtime.drainEnteredAt
      runtime.probeSuccessStreak state
    let drained := if tier = .draining ∧ runtime.healthTier ≠ .draining then
      {runtime with drainEnteredAt := some now,probeSuccessStreak := 0} else runtime
    let cleared := if tier = .healthy then
      {drained with drainEnteredAt := none,probeSuccessStreak := 0} else drained
    {cleared with healthTier := tier}
  else {runtime with drainEnteredAt := none,probeSuccessStreak := 0,healthTier := .healthy}

def stateFromAccount (env : Env) (now : ℚ) (account : Account) (primary secondary : Option UsageEntry)
    (runtime : RuntimeState) : AccountState × RuntimeState :=
  let weekly := primary.any fun p => shouldUseWeeklyPrimary p secondary
  let effectiveSecondary := if weekly then primary else secondary
  let quota := applyUsageQuota now
    { status := account.status
      primaryUsed := primary.map (·.usedPercent)
      primaryReset := primary.bind (·.resetAt)
      primaryWindowMinutes := primary.bind (·.windowMinutes)
      runtimeReset := effectiveReset env now account primary effectiveSecondary runtime
      secondaryUsed := effectiveSecondary.map (·.usedPercent)
      secondaryReset := effectiveSecondary.bind (·.resetAt) }
  let state : AccountState :=
    { accountId := account.id
      status := quota.1
      usedPercent := quota.2.1
      resetAt := quota.2.2
      blockedAt := if quota.1 = .quotaExceeded ∨ quota.1 = .rateLimited then
        effectiveBlockedAt account runtime else none
      cooldownUntil := runtime.cooldownUntil
      secondaryUsedPercent := effectiveSecondary.map (·.usedPercent)
      secondaryResetAt := effectiveSecondary.bind (·.resetAt)
      lastErrorAt := runtime.lastErrorAt
      lastSelectedAt := runtime.lastSelectedAt
      errorCount := runtime.errorCount
      deactivationReason := account.deactivationReason
      planType := some account.planType
      capacityCredits := env.capacityForPlan (some account.planType)
      healthTier := runtime.healthTier }
  let runtime := nextHealth env now state runtime
  ({state with healthTier := runtime.healthTier},runtime)

structure Candidate where
  account : Account
  primary : Option UsageEntry
  secondary : Option UsageEntry
  deriving DecidableEq, Repr

abbrev Runtimes := Dict String RuntimeState

/-- `self._runtime.setdefault(account_id, RuntimeState())`. -/
def runtimeOf (runtimes : Runtimes) (accountId : String) : RuntimeState :=
  (runtimes.get? accountId).getD {}

def buildStates (env : Env) (now : ℚ) : List Candidate → Runtimes → List AccountState × Runtimes
  | [],runtimes => ([],runtimes)
  | c::cs,runtimes =>
    let built := stateFromAccount env now c.account c.primary c.secondary
      (runtimeOf runtimes c.account.id)
    let rest := buildStates env now cs (runtimes.set c.account.id built.2)
    (built.1::rest.1,rest.2)

/-- `_sync_runtime_state`: the state overwrites the runtime unless a version
was expected and is not the one found. -/
def syncRuntimeState (state : AccountState) (selected : Bool)
    (expectedVersion : Option ℕ) (runtime : RuntimeState) : Bool × RuntimeState :=
  if expectedVersion.any (· ≠ runtime.version) then
    (false,if selected then
      {runtime with lastSelectedAt := some now,version := runtime.version+1} else runtime)
  else
    let written := {runtime with
      resetAt := state.resetAt
      cooldownUntil := state.cooldownUntil
      blockedAt := state.blockedAt
      lastErrorAt := state.lastErrorAt
      errorCount := state.errorCount}
    let dirty := written ≠ runtime ∨ account.status ≠ state.status ∨
      account.deactivationReason ≠ state.deactivationReason ∨ selected
    (true,{written with
      lastSelectedAt := if selected then some now else runtime.lastSelectedAt
      version := if dirty then runtime.version+1 else runtime.version})

/-- `_state_for`, the state a failure handler works on. -/
def stateFor (env : Env) (account : Account) (runtime : RuntimeState) : AccountState :=
  { accountId := account.id
    status := account.status
    usedPercent := none
    resetAt := runtime.resetAt
    blockedAt := effectiveBlockedAt account runtime
    cooldownUntil := runtime.cooldownUntil
    secondaryUsedPercent := none
    secondaryResetAt := none
    lastErrorAt := runtime.lastErrorAt
    lastSelectedAt := runtime.lastSelectedAt
    errorCount := runtime.errorCount
    deactivationReason := account.deactivationReason
    planType := some account.planType
    capacityCredits := env.capacityForPlan (some account.planType)
    healthTier := .healthy }

/-- `int(t) if t else None`. -/
def storedTime : Option ℚ → Option ℤ
  | some t => if t = 0 then none else some (truncate t)
  | none => none

def Account.withState (state : AccountState) : Account :=
  {account with
    status := state.status
    deactivationReason := state.deactivationReason
    resetAt := storedTime state.resetAt
    blockedAt := storedTime state.blockedAt}

/-- The columns the compare-and-set of `update_status_if_current` looks at. -/
def Account.SameBlock (a b : Account) : Prop :=
  a.status = b.status ∧ a.deactivationReason = b.deactivationReason ∧ a.resetAt = b.resetAt ∧
    a.blockedAt = b.blockedAt

instance (a b : Account) : Decidable (a.SameBlock b) := inferInstanceAs (Decidable (_ ∧ _ ∧ _ ∧ _))

/-- `_persist_state_if_current` on the stored row; `account` is the object that
was read. The Boolean is the result of the call. -/
def persistStateIfCurrent (row account : Account) (state : AccountState) : Bool × Account :=
  if account.SameBlock (account.withState state) then (true,row)
  else if row.SameBlock account then (true,row.withState state)
  else (false,row)

end CodexLb.LoadBalancer
