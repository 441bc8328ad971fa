import CodexLb.BalancerLogic

/-!
# What a selection decides

`select_account` described without its loop: which states are eligible, which are in
error backoff, and which of the eligible ones is taken. A time that is zero counts as
not set, and a rate limit that is over takes the error count with it, so that a state
that comes out of one is never in error backoff.
-/
namespace CodexLb.LoadBalancer
open TokenRefresh (AccountStatus)

def limitOver (now : ℚ) (s : AccountState) : Bool :=
  match s.status with
  | .deactivated | .paused => false
  | .rateLimited | .quotaExceeded => reached now s.resetAt
  | .active => true

/-- Errors that neither a rate limit nor a cooldown has cleared. -/
def inErrorBackoff (now : ℚ) (s : AccountState) : Bool :=
  s.status ≠ .rateLimited && !reached now s.cooldownUntil && decide (3 ≤ s.errorCount) &&
    backingOff now s

def eligible (now : ℚ) (s : AccountState) : Bool :=
  limitOver now s && !ahead now s.cooldownUntil && !inErrorBackoff now s

def heldBack (now : ℚ) (s : AccountState) : Bool :=
  limitOver now s && !ahead now s.cooldownUntil && inErrorBackoff now s

def hardBlocked (now : ℚ) (s : AccountState) : Bool := !limitOver now s

def recovered (now : ℚ) (s : AccountState) : AccountState := (screen now s).2

def recoveredEligible (now : ℚ) (states : List AccountState) : List AccountState :=
  (states.filter (eligible now)).map (recovered now)

def HealthTier.rank : HealthTier → ℕ
  | .healthy => 0
  | .probing => 1
  | .draining => 2

/-- The state is one that the strategy may take among its rivals. -/
def Preferred (c : Chance) (o : SelectOptions) (now : ℚ) (rivals : List AccountState)
    (s : AccountState) : Prop :=
  match o.routingStrategy with
  | .roundRobin => ∀ t ∈ rivals, roundRobinSortKey s ≤ roundRobinSortKey t
  | .usageWeighted =>
    if o.primaryFirstUsageWeighted then
      ∀ t ∈ rivals, primaryUsageSortKey s ≤ primaryUsageSortKey t
    else if o.preferEarlierReset then
      ∀ t ∈ rivals, resetFirstSortKey now s ≤ resetFirstSortKey now t
    else ∀ t ∈ rivals, usageSortKey s ≤ usageSortKey t
  | .capacityWeighted =>
    s ∈ candidatePool o now rivals ∧
      if o.deterministicProbe then
        ∀ t ∈ candidatePool o now rivals, capacityProbeSortKey c s ≤ capacityProbeSortKey c t
      else (∃ t ∈ candidatePool o now rivals, 0 < remainingSecondaryCredits c t) →
        0 < remainingSecondaryCredits c s

structure Chosen (c : Chance) (o : SelectOptions) (now : ℚ) (pool : List AccountState)
    (s : AccountState) : Prop where
  mem : s ∈ pool
  tier : ∀ t ∈ pool, s.healthTier.rank ≤ t.healthTier.rank
  preferred : Preferred c o now (ofTier s.healthTier pool) s

def Chance.DrawsPositive (c : Chance) : Prop :=
  ∀ weights : List ℚ, (∀ x ∈ weights, 0 ≤ x) → 0 < weights.sum →
    ∃ x, weights[c.draw weights]? = some x ∧ 0 < x

variable {now : ℚ}

theorem not_ahead_of_reached {t : Option ℚ} (h : reached now t = true) : ahead now t = false := by
  cases t with
  | none => rfl
  | some x =>
    simp only [reached,Bool.and_eq_true,decide_eq_true_eq] at h
    simp only [ahead,Bool.and_eq_false_iff,decide_eq_false_iff_not,not_lt]
    exact .inr h.2

theorem screenErrors_verdict : (screenErrors now s).1 = if ahead now s.cooldownUntil then .blocked
      else if decide (3 ≤ s.errorCount) && backingOff now s then .backoff else .available := by
  unfold screenErrors
  split_ifs with hahead hcount hbackoff hboth hboth hboth
  · rfl
  · rfl
  · exact absurd (by simp [hcount,hbackoff]) hboth
  · simp [hbackoff] at hboth
  · rfl
  · simp [hcount] at hboth
  · rfl

theorem clearCooldown_verdict :
    (screenErrors now (clearCooldown now s)).1 = if ahead now s.cooldownUntil then .blocked
      else if !reached now s.cooldownUntil && decide (3 ≤ s.errorCount) && backingOff now s then
        .backoff
      else .available := by
  rw [screenErrors_verdict,clearCooldown]
  cases hreached : reached now s.cooldownUntil with
  | true =>
    have hnone : ahead now none = false := rfl
    simp [not_ahead_of_reached hreached,hnone]
  | false => simp

theorem screen_verdict : (screen now s).1 =
      if eligible now s then .available else if heldBack now s then .backoff else .blocked := by
  have hlift {limit backoff ahead : Bool} (hlimit : limit = true) :
      (if ahead then Verdict.blocked else if backoff then .backoff else .available) =
        if limit && !ahead && !backoff then .available
        else if limit && !ahead && backoff then .backoff else .blocked := by
    cases ahead <;> cases backoff <;> simp [hlimit]
  unfold eligible heldBack
  cases hstatus : s.status with
  | active =>
    have hover : limitOver now s = true := by simp [limitOver,hstatus]
    rw [← hlift hover]
    simp [screen,hstatus,clearCooldown_verdict,inErrorBackoff]
  | deactivated | paused => simp [limitOver,screen,hstatus]
  | rateLimited | quotaExceeded =>
    cases hreached : reached now s.resetAt with
    | false => simp [limitOver,screen,hstatus,hreached]
    | true =>
      have hover : limitOver now s = true := by simp [limitOver,hstatus,hreached]
      rw [← hlift hover]
      simp [screen,hstatus,hreached,clearCooldown_verdict,inErrorBackoff,backingOff]

variable {s : AccountState}

theorem verdict_available : (screen now s).1 = .available ↔ eligible now s = true := by
  rw [screen_verdict]
  split_ifs with h1 h2
  · exact ⟨fun _ => h1,fun _ => rfl⟩
  · exact ⟨nofun,fun h => absurd h h1⟩
  · exact ⟨nofun,fun h => absurd h h1⟩

theorem verdict_backoff : (screen now s).1 = .backoff ↔ heldBack now s = true := by
  rw [screen_verdict]
  split_ifs with h1 h2
  · refine ⟨nofun,fun h => ?_⟩
    simp only [eligible,heldBack,Bool.and_eq_true,Bool.not_eq_true'] at h h1
    rw [h1.2] at h
    cases h.2
  · exact ⟨fun _ => h2,fun _ => rfl⟩
  · exact ⟨nofun,fun h => absurd h h2⟩

theorem clearCooldown_status (now : ℚ) (s : AccountState) :
    (screenErrors now (clearCooldown now s)).2.status = s.status := by
  unfold screenErrors clearCooldown
  split_ifs <;> rfl

theorem hardBlocked_status : isHardBlocked (recovered now s).status = hardBlocked now s := by
  unfold recovered screen hardBlocked limitOver
  cases hstatus : s.status with
  | active => simp only [clearCooldown_status,hstatus]; rfl
  | deactivated | paused => simp only [hstatus]; rfl
  | rateLimited | quotaExceeded =>
    cases hreached : reached now s.resetAt with
    | false => simp only [hstatus,Bool.false_eq_true,if_false]; rfl
    | true => simp only [if_true,clearCooldown_status]; rfl

/-- A state in backoff is left as it is once its limits are over. -/
theorem clearCooldown_backoff (h : (screenErrors now (clearCooldown now s)).1 = .backoff) :
    3 ≤ s.errorCount ∧ (screenErrors now (clearCooldown now s)).2 = s := by
  rw [clearCooldown_verdict] at h
  split_ifs at h with hahead hbackoff
  simp only [Bool.and_eq_true,Bool.not_eq_true',decide_eq_true_eq] at hbackoff
  obtain ⟨⟨hreached,hcount⟩,hbacking⟩ := hbackoff
  refine ⟨hcount,?_⟩
  rw [clearCooldown,hreached,if_neg Bool.false_ne_true,screenErrors,if_neg hahead,if_pos hcount,
    if_pos hbacking]

theorem backoffExpiresAt_recovered (h : heldBack now s = true) :
    backoffExpiresAt (recovered now s) = backoffExpiresAt s := by
  have hverdict := verdict_backoff.2 h
  unfold recovered
  unfold screen at hverdict ⊢
  cases hstatus : s.status with
  | active =>
    simp only [hstatus] at hverdict ⊢
    rw [(clearCooldown_backoff hverdict).2]
  | deactivated | paused => simp only [hstatus] at hverdict; cases hverdict
  | rateLimited =>
    simp only [hstatus] at hverdict
    split_ifs at hverdict
    have hcount : 3 ≤ 0 := (clearCooldown_backoff hverdict).1
    exact absurd hcount (by decide)
  | quotaExceeded =>
    simp only [hstatus] at hverdict ⊢
    split_ifs at hverdict ⊢
    rw [(clearCooldown_backoff hverdict).2]
    rfl

theorem available_eq {states : List AccountState} :
    (((states.map (screen now)).filter fun p => p.1 = .available).map Prod.snd) =
      recoveredEligible now states := by
  rw [List.filter_map,List.map_map,recoveredEligible]
  congr 1
  refine List.filter_congr fun s _ => ?_
  rw [Function.comp_apply,Bool.eq_iff_iff,decide_eq_true_iff]
  exact verdict_available

theorem backoff_eq {states : List AccountState} :
    (((states.map (screen now)).filter fun p => p.1 = .backoff).map Prod.snd) =
      (states.filter (heldBack now)).map (recovered now) := by
  rw [List.filter_map,List.map_map]
  congr 1
  refine List.filter_congr fun s _ => ?_
  rw [Function.comp_apply,Bool.eq_iff_iff,decide_eq_true_iff]
  exact verdict_backoff

/-- Two states in backoff, or one beside a state that is blocked. -/
def fallbackReady (now : ℚ) (states : List AccountState) : Bool :=
  decide (1 < (states.filter (heldBack now)).length) ||
    states.any (heldBack now) && states.any (hardBlocked now)

variable {o : SelectOptions} {states : List AccountState}

theorem candidates_eligible (h : recoveredEligible now states ≠ []) :
    candidates o (states.map (screen now)) = recoveredEligible now states := by
  unfold candidates
  simp only [available_eq]
  rw [if_pos h]

theorem candidates_fallback (h : recoveredEligible now states = []) :
    candidates o (states.map (screen now)) =
      if o.allowBackoffFallback && fallbackReady now states then
        (((states.filter (heldBack now)).map (recovered now)).argmin backoffExpiresAt).toList
      else [] := by
  have hblocked : ((states.map (screen now)).any fun p => isHardBlocked p.2.status) =
      states.any (hardBlocked now) := by
    rw [List.any_map]
    congr 1
    funext s
    exact hardBlocked_status
  have hsome : (states.filter (heldBack now)).map (recovered now) ≠ [] ↔
      states.any (heldBack now) = true := by
    rw [Ne,List.map_eq_nil_iff,List.filter_eq_nil_iff,List.any_eq_true]
    push Not
    rfl
  unfold candidates
  simp only [available_eq,backoff_eq,h,ne_eq,not_true_eq_false,if_false,hblocked,
    List.length_map]
  congr 1
  rw [fallbackReady,Bool.and_eq_true,Bool.or_eq_true,Bool.and_eq_true,decide_eq_true_iff,← hsome]

theorem mem_recoveredEligible {p : AccountState} : p ∈ recoveredEligible now states ↔
      ∃ s ∈ states, eligible now s = true ∧ recovered now s = p := by
  simp only [recoveredEligible,List.mem_map,List.mem_filter,and_assoc]

variable {pool : List AccountState}

theorem ofTier_eq_nil {t : HealthTier} : ofTier t pool = [] ↔ ∀ s ∈ pool, s.healthTier ≠ t := by
  simp [ofTier,List.filter_eq_nil_iff]

theorem effectivePool_tier (h : pool ≠ []) :
    ∃ t, effectivePool pool = ofTier t pool ∧ ∀ s ∈ pool, t.rank ≤ s.healthTier.rank := by
  unfold effectivePool
  split_ifs with hhealthy hprobing hdraining
  · exact ⟨.healthy,rfl,fun s _ => Nat.zero_le _⟩
  · rw [ne_eq,not_not,ofTier_eq_nil] at hhealthy
    refine ⟨.probing,rfl,fun s hs => ?_⟩
    cases ht : s.healthTier with
    | healthy => exact absurd ht (hhealthy s hs)
    | probing => exact le_rfl
    | draining => decide
  · rw [ne_eq,not_not,ofTier_eq_nil] at hhealthy hprobing
    refine ⟨.draining,rfl,fun s hs => ?_⟩
    cases ht : s.healthTier with
    | healthy => exact absurd ht (hhealthy s hs)
    | probing => exact absurd ht (hprobing s hs)
    | draining => exact le_rfl
  · rw [ne_eq,not_not,ofTier_eq_nil] at hhealthy hprobing hdraining
    obtain ⟨s,hs⟩ := List.exists_mem_of_ne_nil pool h
    cases ht : s.healthTier with
    | healthy => exact absurd ht (hhealthy s hs)
    | probing => exact absurd ht (hprobing s hs)
    | draining => exact absurd ht (hdraining s hs)

theorem remainingSecondaryCredits_nonneg : 0 ≤ remainingSecondaryCredits c s := by
  unfold remainingSecondaryCredits
  simp only
  split
  · exact le_max_left _ _
  · split_ifs
    · exact le_rfl
    · exact le_max_left _ _

variable {c : Chance}

theorem selectCapacityWeighted_credits (hdraw : c.DrawsPositive)
    (h : selectCapacityWeighted c pool = some s)
    (hsome : ∃ t ∈ pool, 0 < remainingSecondaryCredits c t) :
    0 < remainingSecondaryCredits c s := by
  have hnonneg : ∀ x ∈ pool.map (remainingSecondaryCredits c), 0 ≤ x := by
    intro x hx
    obtain ⟨t,-,rfl⟩ := List.mem_map.1 hx
    exact remainingSecondaryCredits_nonneg
  have hsum : 0 < (pool.map (remainingSecondaryCredits c)).sum := by
    obtain ⟨t,ht,hpos⟩ := hsome
    exact hpos.trans_le (List.single_le_sum hnonneg _ (List.mem_map_of_mem ht))
  obtain ⟨x,hx,hpos⟩ := hdraw _ hnonneg hsum
  unfold selectCapacityWeighted at h
  rw [if_neg (not_le.2 hsum)] at h
  rw [List.getElem?_map,h] at hx
  rw [← Option.some.inj hx] at hpos
  exact hpos

theorem pickFrom_preferred (hdraw : c.DrawsPositive) (h : pickFrom c o now pool = some s) :
    Preferred c o now pool s := by
  unfold pickFrom at h
  unfold Preferred
  cases hstrategy : o.routingStrategy with
  | roundRobin =>
    simp only [hstrategy] at h ⊢
    exact fun t ht => List.le_of_mem_argmin ht h
  | usageWeighted =>
    simp only [hstrategy] at h ⊢
    split_ifs at h ⊢
    · exact fun t ht => List.le_of_mem_argmin ht h
    · exact fun t ht => List.le_of_mem_argmin ht h
    · exact fun t ht => List.le_of_mem_argmin ht h
  | capacityWeighted =>
    simp only [hstrategy] at h ⊢
    split_ifs at h ⊢
    · exact ⟨List.argmin_mem h,fun t ht => List.le_of_mem_argmin ht h⟩
    · exact ⟨mem_selectCapacityWeighted h,selectCapacityWeighted_credits hdraw h⟩

theorem chosen_of_pick (hdraw : c.DrawsPositive)
    (h : pickFrom c o now (effectivePool pool) = some s) (hne : pool ≠ []) :
    Chosen c o now pool s := by
  obtain ⟨t,hpool,hrank⟩ := effectivePool_tier hne
  have hmem := mem_pickFrom h
  rw [hpool,ofTier,List.mem_filter,decide_eq_true_iff] at hmem
  obtain ⟨hmem,rfl⟩ := hmem
  rw [hpool] at h
  exact ⟨hmem,hrank,pickFrom_preferred hdraw h⟩

theorem selectAccount_of_candidates (h : candidates o (states.map (screen now)) ≠ []) :
    (selectAccount c o now states).1.account =
      pickFrom c o now (effectivePool (candidates o (states.map (screen now)))) := by
  unfold selectAccount
  simp only
  split
  · next hnil => exact absurd hnil h
  · next s ss hcons => rw [hcons]

theorem selectAccount_of_none (h : candidates o (states.map (screen now)) = []) :
    (selectAccount c o now states).1.account = none := by
  unfold selectAccount
  simp only [h]

theorem recoveredEligible_eq_nil :
    recoveredEligible now states = [] ↔ ∀ s ∈ states, eligible now s = false := by
  rw [recoveredEligible,List.map_eq_nil_iff,List.filter_eq_nil_iff]
  simp only [Bool.not_eq_true]

theorem pickFrom_single : pickFrom c o now (effectivePool [s]) = some s := by
  have hne : effectivePool [s] ≠ [] := effectivePool_ne_nil (List.cons_ne_nil _ _)
  obtain ⟨p,hp⟩ := Option.isSome_iff_exists.1 (pickFrom_isSome c o now hne)
  rw [hp,List.mem_singleton.1 (mem_effectivePool (mem_pickFrom hp))]

theorem fallback_choice {c : Chance} {o : SelectOptions} {now : ℚ} {states : List AccountState}
    (hnone : recoveredEligible now states = [])
    (hready : (o.allowBackoffFallback && fallbackReady now states) = true) :
    ∃ s ∈ states, heldBack now s = true ∧
      (selectAccount c o now states).1.account = some (recovered now s) ∧
      ∀ t ∈ states, heldBack now t = true → backoffExpiresAt s ≤ backoffExpiresAt t := by
  have hcandidates := candidates_fallback (o := o) hnone
  rw [if_pos hready] at hcandidates
  have hheld : (states.filter (heldBack now)).map (recovered now) ≠ [] := by
    rw [fallbackReady,Bool.and_eq_true,Bool.or_eq_true,Bool.and_eq_true,decide_eq_true_iff]
      at hready
    intro hnil
    rw [List.map_eq_nil_iff] at hnil
    rcases hready.2 with hlen | ⟨hany,-⟩
    · rw [hnil] at hlen
      exact absurd hlen (Nat.not_lt_zero 1)
    · obtain ⟨s,hs,hheld⟩ := List.any_eq_true.1 hany
      exact absurd (List.mem_filter.2 ⟨hs,hheld⟩) (hnil ▸ List.not_mem_nil)
  obtain ⟨p,hp⟩ := Option.isSome_iff_exists.1 (argmin_isSome backoffExpiresAt hheld)
  rw [hp] at hcandidates
  obtain ⟨s,hs,rfl⟩ := List.mem_map.1 (List.argmin_mem hp)
  obtain ⟨hs,hback⟩ := List.mem_filter.1 hs
  refine ⟨s,hs,hback,?_,fun t ht hheldt => ?_⟩
  · rw [selectAccount_of_candidates (by rw [hcandidates]; exact List.cons_ne_nil _ _),hcandidates]
    exact pickFrom_single
  · have hle := List.le_of_mem_argmin
      (List.mem_map_of_mem (List.mem_filter.2 ⟨ht,hheldt⟩)) hp
    rwa [backoffExpiresAt_recovered hback,backoffExpiresAt_recovered hheldt] at hle

theorem eligible_pick {c : Chance} {o : SelectOptions} {now : ℚ} {states : List AccountState}
    (h : recoveredEligible now states ≠ []) :
    ∃ p, pickFrom c o now (effectivePool (recoveredEligible now states)) = some p ∧
      (selectAccount c o now states).1.account = some p := by
  have hcandidates := candidates_eligible (o := o) h
  obtain ⟨p,hp⟩ := Option.isSome_iff_exists.1
    (pickFrom_isSome c o now (effectivePool_ne_nil h))
  refine ⟨p,hp,?_⟩
  rw [selectAccount_of_candidates (by rw [hcandidates]; exact h),hcandidates,hp]

theorem eligible_choice {c : Chance} {o : SelectOptions} {now : ℚ} {states : List AccountState}
    (h : ∃ s ∈ states, eligible now s = true) :
    ∃ s ∈ states, eligible now s = true ∧
      (selectAccount c o now states).1.account = some (recovered now s) := by
  obtain ⟨s,hs,heligible⟩ := h
  obtain ⟨p,hp,haccount⟩ := @eligible_pick c o now states
    (List.ne_nil_of_mem (mem_recoveredEligible.2 ⟨s,hs,heligible,rfl⟩))
  obtain ⟨t,ht,hteligible,rfl⟩ := mem_recoveredEligible.1 (mem_effectivePool (mem_pickFrom hp))
  exact ⟨t,ht,hteligible,haccount⟩

/-- The decision of a selection for every list of states. -/
theorem selectAccount_decision {c : Chance} (hdraw : c.DrawsPositive) (o : SelectOptions)
    (now : ℚ) (states : List AccountState) :
    ((∃ s ∈ states, eligible now s = true) → ∃ s ∈ states, eligible now s = true ∧
      (selectAccount c o now states).1.account = some (recovered now s) ∧
      Chosen c o now (recoveredEligible now states) (recovered now s)) ∧
    ((∀ s ∈ states, eligible now s = false) →
      if o.allowBackoffFallback && fallbackReady now states then
        ∃ s ∈ states, heldBack now s = true ∧
          (selectAccount c o now states).1.account = some (recovered now s) ∧
          ∀ t ∈ states, heldBack now t = true → backoffExpiresAt s ≤ backoffExpiresAt t
      else (selectAccount c o now states).1.account = none) := by
  constructor
  · rintro ⟨s,hs,heligible⟩
    have hne : recoveredEligible now states ≠ [] :=
      List.ne_nil_of_mem (mem_recoveredEligible.2 ⟨s,hs,heligible,rfl⟩)
    obtain ⟨p,hp,haccount⟩ := @eligible_pick c o now states hne
    have hchosen := chosen_of_pick hdraw hp hne
    obtain ⟨t,ht,hteligible,rfl⟩ := mem_recoveredEligible.1 hchosen.mem
    exact ⟨t,ht,hteligible,haccount,hchosen⟩
  · intro hnone
    have hnil := recoveredEligible_eq_nil.2 hnone
    split_ifs with hready
    · exact fallback_choice hnil hready
    · refine selectAccount_of_none ?_
      rw [candidates_fallback hnil,if_neg hready]

def firstPositive : Chance where
  fallbackCapacityCredits _ := 1
  draw weights := if weights.any (0 < ·) then weights.findIdx (0 < ·) else 0
  draw_lt weights hne := by
    split_ifs with hany
    · obtain ⟨x,hx,hpos⟩ := List.any_eq_true.1 hany
      exact List.findIdx_lt_length_of_exists ⟨x,hx,hpos⟩
    · exact List.length_pos_iff.2 hne

theorem firstPositive_drawsPositive : firstPositive.DrawsPositive := by
  intro weights _ hsum
  have hex : ∃ x ∈ weights, 0 < x := by
    by_contra hnone
    push Not at hnone
    have hle := List.sum_le_card_nsmul weights 0 hnone
    rw [nsmul_zero] at hle
    exact absurd hsum (not_lt.2 hle)
  obtain ⟨x,hx,hpos⟩ := hex
  have hany : weights.any (0 < ·) = true := List.any_eq_true.2 ⟨x,hx,decide_eq_true hpos⟩
  have hlt : weights.findIdx (0 < ·) < weights.length :=
    List.findIdx_lt_length_of_exists ⟨x,hx,decide_eq_true hpos⟩
  refine ⟨weights[weights.findIdx (0 < ·)],?_,?_⟩
  · show weights[if weights.any (0 < ·) then weights.findIdx (0 < ·) else 0]? = _
    rw [if_pos hany,List.getElem?_eq_getElem hlt]
  · exact of_decide_eq_true (List.findIdx_getElem (w := hlt))

def plainState (accountId : String) (status : AccountStatus) : AccountState :=
  ⟨accountId,status,none,none,none,none,none,none,none,none,0,none,none,none,.healthy⟩

def defaultOptions : SelectOptions := ⟨false,.capacityWeighted,true,false,false⟩

/-- Of a paused, a draining and a healthy account the healthy one is taken. -/
theorem healthy_account_chosen :
    ∃ s ∈ [plainState "p" .paused,{plainState "d" .active with healthTier := .draining},
        plainState "h" .active],
      eligible 10 s = true ∧
      (selectAccount firstPositive defaultOptions 10 [plainState "p" .paused,
        {plainState "d" .active with healthTier := .draining},
        plainState "h" .active]).1.account = some (recovered 10 s) ∧
      Chosen firstPositive defaultOptions 10 (recoveredEligible 10 [plainState "p" .paused,
        {plainState "d" .active with healthTier := .draining},plainState "h" .active])
        (recovered 10 s) :=
  (selectAccount_decision firstPositive_drawsPositive defaultOptions 10 _).1
    ⟨plainState "h" .active,by simp,by decide +kernel⟩

/-- Eligibility with every time that is there counted as set, and with errors that
only an expired cooldown clears. -/
def EligibleAsStated (now : ℚ) (s : AccountState) : Prop :=
  s.status ≠ .paused ∧ s.status ≠ .deactivated ∧
    (s.status = .rateLimited ∨ s.status = .quotaExceeded → ∃ t ∈ s.resetAt, t ≤ now) ∧
    (∀ t ∈ s.cooldownUntil, t ≤ now) ∧
    ¬(s.cooldownUntil = none ∧ 3 ≤ s.errorCount ∧
      ∃ t ∈ s.lastErrorAt, now < t+errorBackoff s.errorCount)

def limitedWithErrors : AccountState :=
  {plainState "a" .rateLimited with resetAt := some 5,errorCount := 3,lastErrorAt := some 9}

def limitedUntilZero : AccountState := {plainState "a" .rateLimited with resetAt := some 0}

/-- The one is selected although it is in error backoff, the other never is although
its reset time has passed. -/
theorem recovered_errors_and_zero_reset : (¬EligibleAsStated 10 limitedWithErrors ∧
      (selectAccount firstPositive defaultOptions 10 [limitedWithErrors]).1.account ≠ none) ∧
    EligibleAsStated 10 limitedUntilZero ∧
      (selectAccount firstPositive defaultOptions 10 [limitedUntilZero]).1.account = none := by
  refine ⟨⟨fun h => h.2.2.2.2 ⟨rfl,le_rfl,9,rfl,?_⟩,by decide +kernel⟩,?_,by decide +kernel⟩
  · decide +kernel
  · refine ⟨by decide,by decide,fun _ => ⟨0,rfl,by norm_num⟩,nofun,?_⟩
    exact fun h => absurd h.2.1 (by decide)

end CodexLb.LoadBalancer
