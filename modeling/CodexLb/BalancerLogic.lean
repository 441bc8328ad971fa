import CodexLb.TokenRefresh
import Mathlib.Data.List.MinMax
import Mathlib.Data.Prod.Lex
import Mathlib.Data.Rat.Floor
import Mathlib.Data.String.Basic

/-!
# Choosing among account states

The selection rule of the balancer core. `select_account` first screens every
state: a limit that is over, an expired cooldown and an expired error backoff
are cleared in the state itself, so a selection also returns the states as it
left them. The screening of a state depends on that state and the clock only.

Times and percentages are rationals; the rounding of floats is not modelled.
A function that reads the clock is given the reading. The weighted draw is an
index that depends on the weights, and the credits of a plan are a parameter.
-/
namespace CodexLb.LoadBalancer
open TokenRefresh (AccountStatus)

inductive HealthTier where
  | healthy | draining | probing
  deriving DecidableEq, Repr

structure AccountState where
  accountId : String
  status : AccountStatus
  usedPercent : Option ℚ
  resetAt : Option ℚ
  blockedAt : Option ℚ
  cooldownUntil : Option ℚ
  secondaryUsedPercent : Option ℚ
  secondaryResetAt : Option ℤ
  lastErrorAt : Option ℚ
  lastSelectedAt : Option ℚ
  errorCount : ℕ
  deactivationReason : Option String
  planType : Option String
  capacityCredits : Option ℚ
  healthTier : HealthTier
  deriving DecidableEq, Repr

structure SelectionResult where
  account : Option AccountState
  errorMessage : Option String
  deriving DecidableEq, Repr

inductive RoutingStrategy where
  | usageWeighted | roundRobin | capacityWeighted
  deriving DecidableEq, Repr

structure SelectOptions where
  preferEarlierReset : Bool
  routingStrategy : RoutingStrategy
  allowBackoffFallback : Bool
  deterministicProbe : Bool
  primaryFirstUsageWeighted : Bool
  deriving DecidableEq, Repr

/-- `_fallback_secondary_capacity_credits` and the draw of `random.choices`. -/
structure Chance where
  fallbackCapacityCredits : Option String → ℚ
  draw : List ℚ → ℕ
  draw_lt : ∀ weights, weights ≠ [] → draw weights < weights.length

variable (current : ℚ)

/-- A time that is set, not zero, and not after the clock. -/
def reached : Option ℚ → Bool
  | some t => t ≠ 0 && decide (t ≤ current)
  | none => false

def ahead : Option ℚ → Bool
  | some t => t ≠ 0 && decide (current < t)
  | none => false

def errorBackoff (errorCount : ℕ) : ℚ := min 300 (30*2^(errorCount-3))

variable (s : AccountState)

/-- Fewer than `errorBackoff` seconds since an error whose time is set and not
zero. -/
def backingOff : Bool :=
  match s.lastErrorAt with
  | some t => t ≠ 0 && decide (current-t < errorBackoff s.errorCount)
  | none => false

inductive Verdict where
  | blocked | backoff | available
  deriving DecidableEq, Repr

def clearCooldown : AccountState :=
  if reached current s.cooldownUntil then
    {s with cooldownUntil := none,lastErrorAt := none,errorCount := 0}
  else s

def screenErrors : Verdict × AccountState :=
  if ahead current s.cooldownUntil then (.blocked,s)
  else if 3 ≤ s.errorCount then
    if backingOff current s then (.backoff,s)
    else (.available,{s with errorCount := 0,lastErrorAt := none})
  else (.available,s)

def screen : Verdict × AccountState :=
  match s.status with
  | .deactivated | .paused => (.blocked,s)
  | .rateLimited =>
    if reached current s.resetAt then
      screenErrors current (clearCooldown current
        {s with status := .active,errorCount := 0,resetAt := none})
    else (.blocked,s)
  | .quotaExceeded =>
    if reached current s.resetAt then
      screenErrors current (clearCooldown current
        {s with status := .active,usedPercent := some 0,resetAt := none})
    else (.blocked,s)
  | .active => screenErrors current (clearCooldown current s)

def usageSortKey : ℚ ×ₗ ℚ ×ₗ ℚ ×ₗ String :=
  let primaryUsed := s.usedPercent.getD 0
  toLex (s.secondaryUsedPercent.getD primaryUsed,toLex (primaryUsed,
    toLex (s.lastSelectedAt.getD 0,s.accountId)))

def primaryUsageSortKey : ℚ ×ₗ ℚ ×ₗ ℚ ×ₗ String :=
  let primaryUsed := s.usedPercent.getD 0
  toLex (primaryUsed,toLex (s.secondaryUsedPercent.getD primaryUsed,
    toLex (s.lastSelectedAt.getD 0,s.accountId)))

def roundRobinSortKey : ℚ ×ₗ String := toLex (s.lastSelectedAt.getD 0,s.accountId)

def unknownResetBucketDays : ℤ := 10000

def resetBucketDays : ℤ :=
  match s.secondaryResetAt with
  | none => unknownResetBucketDays
  | some t => max 0 ⌊((t : ℚ)-current)/86400⌋

def resetFirstSortKey : ℚ ×ₗ ℚ ×ₗ ℚ ×ₗ ℚ ×ₗ String :=
  toLex ((resetBucketDays current s : ℚ),usageSortKey s)

def preferEarlierResetCandidates (available : List AccountState) : List AccountState :=
  available.filter fun s => ((available.map (resetBucketDays current)).min?) =
    some (resetBucketDays current s)

def remainingSecondaryCredits (c : Chance) (s : AccountState) : ℚ :=
  let usedPct := match s.secondaryUsedPercent with
    | some u => u
    | none => s.usedPercent.getD 0
  match s.capacityCredits with
  | none => max 0 (c.fallbackCapacityCredits s.planType*(1-min usedPct 100/100))
  | some capacity => if capacity ≤ 0 then 0 else max 0 (capacity*(1-min usedPct 100/100))

def capacityProbeSortKey (c : Chance) (s : AccountState) : ℚ ×ₗ ℚ ×ₗ ℚ ×ₗ ℚ ×ₗ String :=
  toLex (-remainingSecondaryCredits c s,usageSortKey s)

def selectCapacityWeighted (c : Chance) (available : List AccountState) : Option AccountState :=
  let weights := available.map (remainingSecondaryCredits c)
  if weights.sum ≤ 0 then available.argmin usageSortKey else available[c.draw weights]?

def ofTier (t : HealthTier) (available : List AccountState) : List AccountState :=
  available.filter fun s => s.healthTier = t

/-- `healthy or probing or draining or available`. -/
def effectivePool (available : List AccountState) : List AccountState :=
  if ofTier .healthy available ≠ [] then ofTier .healthy available
  else if ofTier .probing available ≠ [] then ofTier .probing available
  else if ofTier .draining available ≠ [] then ofTier .draining available
  else available

def candidatePool (o : SelectOptions) (current : ℚ) (pool : List AccountState) : List AccountState :=
  if o.preferEarlierReset then preferEarlierResetCandidates current pool else pool

def pickFrom (c : Chance) (o : SelectOptions) (current : ℚ) (pool : List AccountState) :
    Option AccountState :=
  match o.routingStrategy with
  | .roundRobin => pool.argmin roundRobinSortKey
  | .capacityWeighted =>
    if o.deterministicProbe then (candidatePool o current pool).argmin (capacityProbeSortKey c)
    else selectCapacityWeighted c (candidatePool o current pool)
  | .usageWeighted =>
    if o.primaryFirstUsageWeighted then pool.argmin primaryUsageSortKey
    else if o.preferEarlierReset then pool.argmin (resetFirstSortKey current)
    else pool.argmin usageSortKey

def isHardBlocked : AccountStatus → Bool
  | .paused | .deactivated | .rateLimited | .quotaExceeded => true
  | .active => false

def backoffExpiresAt : ℚ := s.lastErrorAt.getD 0+errorBackoff s.errorCount

def truncate (x : ℚ) : ℤ := if 0 ≤ x then ⌊x⌋ else ⌈x⌉

/-- Rounding of `format` with no decimals: halves go to the even neighbour. -/
def roundHalfEven (x : ℚ) : ℤ :=
  let low := ⌊x⌋
  if x-low < 1/2 then low
  else if 1/2 < x-low then low+1
  else if low%2 = 0 then low else low+1

def selectorRetryHintMaxSeconds : ℚ := 300

def formatRetryHint (waitSeconds : ℚ) : String :=
  "Rate limit exceeded. Try again in "++
    toString (roundHalfEven (min (max 0 waitSeconds) selectorRetryHintMaxSeconds))++"s"

def ofStatus (t : AccountStatus) (states : List AccountState) : List AccountState :=
  states.filter fun s => s.status = t

def unavailableMessage (states : List AccountState) : String :=
  let limited := ofStatus .rateLimited states ≠ [] ∨ ofStatus .quotaExceeded states ≠ []
  if ofStatus .paused states ≠ [] ∧ ofStatus .deactivated states ≠ [] ∧ ¬ limited then
    "All accounts are paused or require re-authentication"
  else if ofStatus .paused states ≠ [] ∧ ¬ limited then "All accounts are paused"
  else if ofStatus .deactivated states ≠ [] ∧ ¬ limited then "All accounts require re-authentication"
  else
    let resets := (ofStatus .quotaExceeded states).filterMap fun s => s.resetAt.filter (· ≠ 0)
    let cooldowns := states.filterMap fun s =>
      if ahead current s.cooldownUntil then s.cooldownUntil else none
    match resets.min?,cooldowns.min? with
    | some t,_ => formatRetryHint (max 0 (t-truncate current))
    | none,some t => formatRetryHint (max 0 (t-current))
    | none,none => "No available accounts"

/-- The states that passed, or the one nearest to the end of its backoff. -/
def candidates (o : SelectOptions) (screened : List (Verdict × AccountState)) : List AccountState :=
  let available := (screened.filter fun p => p.1 = .available).map Prod.snd
  let inErrorBackoff := (screened.filter fun p => p.1 = .backoff).map Prod.snd
  if available ≠ [] then available
  else if o.allowBackoffFallback ∧ (1 < inErrorBackoff.length ∨
      inErrorBackoff ≠ [] ∧ screened.any fun p => isHardBlocked p.2.status) then
    (inErrorBackoff.argmin backoffExpiresAt).toList
  else []

/-- The selection and the states as it leaves them, in their order. -/
def selectAccount (c : Chance) (o : SelectOptions) (current : ℚ) (states : List AccountState) :
    SelectionResult × List AccountState :=
  let screened := states.map (screen current)
  let after := screened.map Prod.snd
  match candidates o screened with
  | [] => (⟨none,some (unavailableMessage current after)⟩,after)
  | s::ss => (⟨pickFrom c o current (effectivePool (s::ss)),none⟩,after)

theorem clearCooldown_accountId : (clearCooldown current s).accountId = s.accountId := by
  unfold clearCooldown
  split <;> rfl

theorem screenErrors_accountId : (screenErrors current s).2.accountId = s.accountId := by
  unfold screenErrors
  split_ifs <;> rfl

theorem screen_accountId : (screen current s).2.accountId = s.accountId := by
  unfold screen
  split
  · rfl
  · rfl
  · split_ifs
    · rw [screenErrors_accountId,clearCooldown_accountId]
    · rfl
  · split_ifs
    · rw [screenErrors_accountId,clearCooldown_accountId]
    · rfl
  · rw [screenErrors_accountId,clearCooldown_accountId]

variable {current s}

theorem screen_rateLimited (hs : s.status = .rateLimited) (h : reached current s.resetAt = false) :
    screen current s = (.blocked,s) := by
  simp [screen,hs,h]

theorem selectAccount_states (c : Chance) (o : SelectOptions) (current : ℚ)
    (states : List AccountState) :
    (selectAccount c o current states).2 = states.map fun s => (screen current s).2 := by
  unfold selectAccount
  simp only []
  split <;> simp [Function.comp_def]

variable {available : List AccountState}

theorem mem_effectivePool (h : s ∈ effectivePool available) : s ∈ available := by
  unfold effectivePool ofTier at h
  split_ifs at h
  · exact (List.mem_filter.mp h).1
  · exact (List.mem_filter.mp h).1
  · exact (List.mem_filter.mp h).1
  · exact h

variable {o : SelectOptions} {pool : List AccountState}

theorem mem_candidatePool (h : s ∈ candidatePool o current pool) : s ∈ pool := by
  unfold candidatePool at h
  split_ifs at h
  · exact (List.mem_filter.mp h).1
  · exact h

variable {c : Chance}

theorem mem_selectCapacityWeighted (h : selectCapacityWeighted c available = some s) :
    s ∈ available := by
  unfold selectCapacityWeighted at h
  simp only [] at h
  split_ifs at h
  · exact List.argmin_mem h
  · exact List.mem_of_getElem? h

theorem mem_pickFrom (h : pickFrom c o current pool = some s) : s ∈ pool := by
  unfold pickFrom at h
  split at h
  · exact List.argmin_mem h
  · split_ifs at h
    · exact mem_candidatePool (List.argmin_mem h)
    · exact mem_candidatePool (mem_selectCapacityWeighted h)
  · split_ifs at h
    · exact List.argmin_mem h
    · exact List.argmin_mem h
    · exact List.argmin_mem h

theorem argmin_isSome {A B : Type*} [Preorder B] [DecidableLT B] (f : A → B) {l : List A}
    (h : l ≠ []) : (l.argmin f).isSome := by
  rw [Option.isSome_iff_ne_none]
  exact fun hnone => h (List.argmin_eq_none.mp hnone)

theorem candidatePool_ne_nil (h : pool ≠ []) : candidatePool o current pool ≠ [] := by
  unfold candidatePool
  split_ifs
  · cases hm : (pool.map (resetBucketDays current)).min? with
    | none => exact absurd (List.map_eq_nil_iff.mp (List.min?_eq_none_iff.mp hm)) h
    | some m =>
      obtain ⟨s,hs,rfl⟩ := List.mem_map.mp (List.min?_mem hm)
      exact List.ne_nil_of_mem (List.mem_filter.mpr ⟨hs,by simp [hm]⟩)
  · exact h

theorem pickFrom_isSome (c : Chance) (o : SelectOptions) (current : ℚ) (h : pool ≠ []) :
    (pickFrom c o current pool).isSome := by
  unfold pickFrom
  split
  · exact argmin_isSome _ h
  · split_ifs
    · exact argmin_isSome _ (candidatePool_ne_nil h)
    · unfold selectCapacityWeighted
      simp only []
      split_ifs
      · exact argmin_isSome _ (candidatePool_ne_nil h)
      · have hlt := c.draw_lt ((candidatePool o current pool).map (remainingSecondaryCredits c))
          (by simpa using candidatePool_ne_nil h)
        rw [List.length_map] at hlt
        rw [List.getElem?_eq_getElem hlt]
        rfl
  · split_ifs
    · exact argmin_isSome _ h
    · exact argmin_isSome _ h
    · exact argmin_isSome _ h

theorem effectivePool_ne_nil (h : available ≠ []) : effectivePool available ≠ [] := by
  unfold effectivePool
  split_ifs with h1 h2 h3
  · exact h1
  · exact h2
  · exact h3
  · exact h

theorem mem_candidates {screened : List (Verdict × AccountState)} (h : s ∈ candidates o screened) :
    ∃ v, v ≠ .blocked ∧ (v,s) ∈ screened := by
  unfold candidates at h
  simp only [] at h
  split_ifs at h
  · obtain ⟨⟨v,q⟩,hq,rfl⟩ := List.mem_map.mp h
    obtain ⟨hmem,hv⟩ := List.mem_filter.mp hq
    refine ⟨v,?_,hmem⟩
    rintro rfl
    simp at hv
  · obtain ⟨⟨v,q⟩,hq,rfl⟩ := List.mem_map.mp (List.argmin_mem (Option.mem_toList.mp h))
    obtain ⟨hmem,hv⟩ := List.mem_filter.mp hq
    refine ⟨v,?_,hmem⟩
    rintro rfl
    simp at hv
  · cases h

variable {states : List AccountState}

theorem selectAccount_mem (h : (selectAccount c o current states).1.account = some s) :
    ∃ q ∈ states, (screen current q).2 = s ∧ (screen current q).1 ≠ .blocked := by
  unfold selectAccount at h
  simp only [] at h
  split at h
  · cases h
  · rename_i first rest hcand
    have hs := mem_effectivePool (mem_pickFrom h)
    rw [← hcand] at hs
    obtain ⟨v,hv,hmem⟩ := mem_candidates hs
    obtain ⟨q,hq,hscreen⟩ := List.mem_map.mp hmem
    exact ⟨q,hq,by rw [hscreen],by rw [hscreen]; exact hv⟩

theorem selectAccount_isSome : (selectAccount c o current states).1.account.isSome ↔
      candidates o (states.map (screen current)) ≠ [] := by
  unfold selectAccount
  simp only []
  split
  · rename_i h
    simp [h]
  · rename_i s ss h
    rw [h]
    exact ⟨fun _ => by simp,fun hne => pickFrom_isSome c o current (effectivePool_ne_nil hne)⟩

/-- A single state without the backoff fallback is selected exactly if the
screening finds it available. -/
theorem selectAccount_single (c : Chance) (ho : o.allowBackoffFallback = false) (current : ℚ)
    (s : AccountState) :
    (selectAccount c o current [s]).1.account.isSome ↔ (screen current s).1 = .available := by
  rw [selectAccount_isSome]
  cases hv : (screen current s).1 <;> simp [candidates,hv,ho]

end CodexLb.LoadBalancer
