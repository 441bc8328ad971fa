import CodexLb.BalancerDecision
import CodexLb.BalancerSelection

/-!
# Budget and availability

`_select_account_preferring_budget_safe` first asks `select_account` for one of the
states at or below the budget threshold, and asks for one of all states only if it
gets none. The first call has the fallback of `select_account` as well: when no state
of its pool is available, it takes one in error backoff, if there are two of them or
a blocked state beside it. It does so although the pool it was given is not the whole
one, and then an available state above the threshold is passed over.
-/
namespace CodexLb.LoadBalancer
open TokenRefresh (AccountStatus)

def budgetSafe (pct : ℚ) (states : List AccountState) : List AccountState :=
  states.filter fun s => !stateAboveBudgetThreshold pct s

def availableThroughout (first second : ℚ) (s : AccountState) : Bool :=
  eligible first s && eligible second s

/-- What a selection at one of the two readings leaves of a state of the list that is
available as it finds it. -/
def TakenAvailable (first second : ℚ) (states : List AccountState) (x : AccountState) : Prop :=
  ∃ s ∈ states, ∃ t ∈ [first,second], ∃ u, Screened (· ∈ [first,second]) s u ∧
    eligible t u = true ∧ recovered t u = x

/-- An available state is returned if there is one, and one above the threshold only if
no other is available. -/
structure BudgetPreference (c : Chance) (o : SelectOptions) (pct first second : ℚ)
    (states : List AccountState) : Prop where
  available : (∃ s ∈ states, availableThroughout first second s = true) →
    ∃ x, (selectAccountPreferringBudgetSafe c o pct first second states).1.account = some x ∧
      TakenAvailable first second states x
  affordable : ∀ x,
    (selectAccountPreferringBudgetSafe c o pct first second states).1.account = some x →
    ∃ s ∈ states, Screened (· ∈ [first,second]) s x ∧
      (stateAboveBudgetThreshold pct s = true →
        ∀ u ∈ budgetSafe pct states, availableThroughout first second u = false)

def afterFirst (pct first : ℚ) (states : List AccountState) : List AccountState :=
  screenWhere (fun s => !stateAboveBudgetThreshold pct s) first states

def firstChoice (c : Chance) (o : SelectOptions) (pct first : ℚ) (states : List AccountState) :
    Option AccountState :=
  (selectAccount c {o with primaryFirstUsageWeighted := false} first (budgetSafe pct states)).1.account

def secondChoice (c : Chance) (o : SelectOptions) (pct first second : ℚ)
    (states : List AccountState) : Option AccountState :=
  let after := afterFirst pct first states
  (selectAccount c {o with
    primaryFirstUsageWeighted := o.routingStrategy = .usageWeighted ∧ after ≠ []} second
    after).1.account

section
variable {c : Chance} {o : SelectOptions} {pct first second : ℚ} {states : List AccountState}

variable {s : AccountState}

theorem mem_budgetSafe :
    s ∈ budgetSafe pct states ↔ s ∈ states ∧ stateAboveBudgetThreshold pct s = false := by
  simp [budgetSafe]

theorem selectAccount_nil (c : Chance) (o : SelectOptions) (now : ℚ) :
    (selectAccount c o now []).1.account = none :=
  selectAccount_of_none (by simp [candidates])

theorem afterFirst_of_empty (h : budgetSafe pct states = []) : afterFirst pct first states = states := by
  rw [budgetSafe,List.filter_eq_nil_iff] at h
  conv_rhs => rw [← List.map_id states]
  exact List.map_congr_left fun s hs => if_neg (h s hs)

theorem mem_afterFirst_above (hs : s ∈ states) (h : stateAboveBudgetThreshold pct s = true) :
    s ∈ afterFirst pct first states :=
  List.mem_map.mpr ⟨s,hs,by simp [h]⟩

theorem screened_of_mem_afterFirst (h : s ∈ afterFirst pct first states) :
    ∃ u ∈ states, Screened (· ∈ [first,second]) u s := by
  obtain ⟨u,hu,rfl⟩ := List.mem_map.mp h
  refine ⟨u,hu,?_⟩
  split_ifs
  · exact .step first (by simp) (.refl u)
  · exact .refl u

/-- The second call is made when the first has no answer and its pool was not the
whole one. -/
theorem preferringBudgetSafe_account :
    (selectAccountPreferringBudgetSafe c o pct first second states).1.account =
      if (firstChoice c o pct first states).isSome = true ∨ budgetSafe pct states = states then
        firstChoice c o pct first states
      else secondChoice c o pct first second states := by
  have hall : (budgetSafe pct states).length = states.length ↔ budgetSafe pct states = states := by
    rw [budgetSafe,List.length_filter_eq_length_iff,List.filter_eq_self]
  change (if budgetSafe pct states = [] then _
    else if (firstChoice c o pct first states).isSome = true ∨
      (budgetSafe pct states).length = states.length then _
    else _ : SelectionResult × List AccountState).1.account = _
  by_cases hnil : budgetSafe pct states = []
  · have hnone : firstChoice c o pct first states = none := by
      rw [firstChoice,hnil,selectAccount_nil]
    rw [if_pos hnil,hnone]
    split_ifs with hdone
    · have hstates : states = [] := by
        rcases hdone with h | h
        · cases h
        · rw [← h,hnil]
      rw [hstates,selectAccount_nil]
    · rw [secondChoice,afterFirst_of_empty hnil]
  · rw [if_neg hnil]
    by_cases hdone : (firstChoice c o pct first states).isSome = true ∨ budgetSafe pct states = states
    · rw [if_pos hdone,if_pos (hdone.imp id hall.mpr)]
      rfl
    · rw [if_neg hdone,if_neg fun h => hdone (h.imp id hall.mp)]
      rfl

variable {x : AccountState}

theorem affordable_choice
    (h : (selectAccountPreferringBudgetSafe c o pct first second states).1.account = some x) :
    ∃ s ∈ states, Screened (· ∈ [first,second]) s x ∧
      (stateAboveBudgetThreshold pct s = true →
        ∀ u ∈ budgetSafe pct states, availableThroughout first second u = false) := by
  rw [preferringBudgetSafe_account] at h
  split_ifs at h with hfirst
  · obtain ⟨s,hs,rfl,-⟩ := selectAccount_mem h
    obtain ⟨hmem,hsafe⟩ := mem_budgetSafe.mp hs
    refine ⟨s,hmem,.step first (by simp) (.refl s),fun habove => ?_⟩
    rw [hsafe] at habove
    cases habove
  · obtain ⟨v,hv,rfl,_⟩ := selectAccount_mem h
    obtain ⟨s,hs,hscreened⟩ := screened_of_mem_afterFirst hv
    refine ⟨s,hs,.step second (by simp) hscreened,fun _ u hu => ?_⟩
    rw [not_or,Bool.not_eq_true,Option.isSome_eq_false_iff,Option.isNone_iff_eq_none] at hfirst
    refine Bool.eq_false_iff.mpr fun havailable => ?_
    rw [availableThroughout,Bool.and_eq_true] at havailable
    obtain ⟨w,_,_,hw⟩ := @eligible_choice c {o with primaryFirstUsageWeighted := false} first
      (budgetSafe pct states) ⟨u,hu,havailable.1⟩
    rw [firstChoice,hw] at hfirst
    cases hfirst.1

variable {t : ℚ}

theorem screen_of_passed (h : (screen t s).1 ≠ .blocked) :
    ∃ u, screen t s = screenErrors t (clearCooldown t u) := by
  unfold screen at h ⊢
  split at h
  · exact absurd rfl h
  · exact absurd rfl h
  · split_ifs at h ⊢
    · exact ⟨_,rfl⟩
    · exact absurd rfl h
  · split_ifs at h ⊢
    · exact ⟨_,rfl⟩
    · exact absurd rfl h
  · exact ⟨_,rfl⟩

/-- A state that comes out of a selection as available has few errors. -/
theorem recovered_errorCount (h : eligible t s = true) : (recovered t s).errorCount < 3 := by
  have hverdict := verdict_available.2 h
  obtain ⟨u,hu⟩ := screen_of_passed (by rw [hverdict]; decide)
  rw [recovered,hu]
  rw [hu] at hverdict
  unfold screenErrors at hverdict ⊢
  split_ifs at hverdict ⊢ with _ hcount
  · exact Nat.zero_lt_succ _
  · exact not_le.mp hcount

theorem heldBack_errorCount (h : heldBack t s = true) : 3 ≤ (recovered t s).errorCount := by
  have hverdict := verdict_backoff.2 h
  obtain ⟨u,hu⟩ := screen_of_passed (by rw [hverdict]; decide)
  rw [hu] at hverdict
  obtain ⟨hcount,hsame⟩ := clearCooldown_backoff hverdict
  rw [recovered,hu,hsame]
  exact hcount

end

/-- `select_account` finds a state, if need be one in error backoff. -/
def selectable (now : ℚ) (states : List AccountState) : Bool :=
  states.any (eligible now) || fallbackReady now states

def budgetSelectable (pct first second : ℚ) (states : List AccountState) : Bool :=
  selectable first (budgetSafe pct states) ||
    decide (budgetSafe pct states ≠ states) && selectable second (afterFirst pct first states)

variable {o : SelectOptions}

theorem selectAccount_isSome_eq {c : Chance} (ho : o.allowBackoffFallback = true) {now : ℚ}
    {states : List AccountState} :
    (selectAccount c o now states).1.account.isSome = selectable now states := by
  by_cases hany : ∃ s ∈ states, eligible now s = true
  · obtain ⟨_,_,_,hchoice⟩ := @eligible_choice c o now states hany
    rw [hchoice,selectable,List.any_eq_true.2 hany]
    rfl
  · have hnil : recoveredEligible now states = [] :=
      recoveredEligible_eq_nil.2 fun s hs => Bool.eq_false_iff.mpr fun he => hany ⟨s,hs,he⟩
    have hfalse : states.any (eligible now) = false :=
      Bool.eq_false_iff.mpr fun h => hany (List.any_eq_true.1 h)
    rw [selectable,hfalse,Bool.false_or]
    cases hready : fallbackReady now states with
    | true =>
      obtain ⟨_,_,_,hchoice,_⟩ := @fallback_choice c o now states hnil (by simp [ho,hready])
      rw [hchoice]
      rfl
    | false =>
      rw [selectAccount_of_none]
      · rfl
      · rw [candidates_fallback hnil,hready,Bool.and_false]
        rfl

theorem preferringBudgetSafe_isSome (c : Chance) (ho : o.allowBackoffFallback = true)
    (pct first second : ℚ) (states : List AccountState) :
    (selectAccountPreferringBudgetSafe c o pct first second states).1.account.isSome =
      budgetSelectable pct first second states := by
  have hfirst : (firstChoice c o pct first states).isSome = selectable first (budgetSafe pct states) :=
    selectAccount_isSome_eq (by exact ho)
  have hsecond : (secondChoice c o pct first second states).isSome =
      selectable second (afterFirst pct first states) :=
    selectAccount_isSome_eq (by exact ho)
  rw [preferringBudgetSafe_account,budgetSelectable,hfirst]
  split_ifs with hdone
  · rw [hfirst]
    rcases hdone with h | h
    · simp [h]
    · simp [h]
  · rw [not_or,Bool.not_eq_true] at hdone
    rw [hsecond,hdone.1]
    simp [hdone.2]

/-- The preference holds unless the only states available are above the threshold and
the first call falls back to one in error backoff. -/
theorem budget_preference_iff (c : Chance) (o : SelectOptions) (pct first second : ℚ)
    (states : List AccountState) :
    BudgetPreference c {o with allowBackoffFallback := true} pct first second states ↔
      ((∃ s ∈ states, stateAboveBudgetThreshold pct s = true ∧
          availableThroughout first second s = true) →
        (∃ u ∈ budgetSafe pct states, eligible first u = true) ∨
          fallbackReady first (budgetSafe pct states) = false) := by
  constructor
  · intro h ⟨s,hs,_,havailable⟩
    by_contra hnot
    rw [not_or] at hnot
    obtain ⟨hnone,hready⟩ := hnot
    have hnil : recoveredEligible first (budgetSafe pct states) = [] :=
      recoveredEligible_eq_nil.2 fun u hu => Bool.eq_false_iff.mpr fun he => hnone ⟨u,hu,he⟩
    obtain ⟨w,_,hheld,hchoice,_⟩ := @fallback_choice c
      {o with allowBackoffFallback := true,primaryFirstUsageWeighted := false} first
      (budgetSafe pct states) hnil (by simpa using hready)
    obtain ⟨x,hx,_,_,t,_,v,_,heligible,rfl⟩ := h.available ⟨s,hs,havailable⟩
    rw [preferringBudgetSafe_account,firstChoice,hchoice,if_pos (.inl rfl)] at hx
    have hmany := heldBack_errorCount hheld
    have hfew := recovered_errorCount heligible
    rw [← Option.some.inj hx] at hfew
    exact absurd hmany (not_le.mpr hfew)
  · intro hcond
    refine ⟨fun ⟨s,hs,havailable⟩ => ?_,fun x hx => affordable_choice hx⟩
    rw [preferringBudgetSafe_account]
    by_cases hsafe : ∃ u ∈ budgetSafe pct states, eligible first u = true
    · obtain ⟨u,hu,heligible,hchoice⟩ := @eligible_choice c
        {o with allowBackoffFallback := true,primaryFirstUsageWeighted := false} first
        (budgetSafe pct states) hsafe
      rw [firstChoice,hchoice,if_pos (.inl rfl)]
      exact ⟨_,rfl,u,(mem_budgetSafe.mp hu).1,first,by simp,u,.refl u,heligible,rfl⟩
    · rw [availableThroughout,Bool.and_eq_true] at havailable
      have habove : stateAboveBudgetThreshold pct s = true := by
        by_contra hnot
        exact hsafe ⟨s,mem_budgetSafe.mpr ⟨hs,Bool.eq_false_iff.mpr hnot⟩,havailable.1⟩
      have hready := (hcond ⟨s,hs,habove,by simp [availableThroughout,havailable]⟩).resolve_left hsafe
      have hnil : recoveredEligible first (budgetSafe pct states) = [] :=
        recoveredEligible_eq_nil.2 fun u hu => Bool.eq_false_iff.mpr fun he => hsafe ⟨u,hu,he⟩
      have hnone : firstChoice c {o with allowBackoffFallback := true} pct first states = none := by
        refine selectAccount_of_none ?_
        rw [candidates_fallback hnil,hready]
        rfl
      have hpool : budgetSafe pct states ≠ states := by
        intro hall
        have hmem := (mem_budgetSafe.mp (hall.symm ▸ hs : s ∈ budgetSafe pct states)).2
        rw [habove] at hmem
        cases hmem
      rw [hnone,if_neg (by simp [hpool]),secondChoice]
      obtain ⟨u,hu,heligible,hchoice⟩ := eligible_choice ⟨s,mem_afterFirst_above hs habove,havailable.2⟩
      obtain ⟨v,hv,hscreened⟩ := screened_of_mem_afterFirst hu
      exact ⟨_,hchoice,v,hv,second,by simp,u,hscreened,heligible,rfl⟩

/-- Ten errors, the last one ten seconds before the selection. -/
def erringState (accountId : String) : AccountState :=
  {plainState accountId .active with usedPercent := some 10,errorCount := 10,lastErrorAt := some 990}

/-- Two states in backoff, and one above the threshold that is available. -/
def mixedPool : List AccountState :=
  [erringState "a",erringState "b",{plainState "c" .active with usedPercent := some 96}]

/-- The state that is returned is in backoff, although the third is available. -/
theorem available_state_passed_over : (∃ s ∈ mixedPool, availableThroughout 1000 1000 s = true) ∧
    (selectAccountPreferringBudgetSafe firstPositive defaultOptions 95 1000 1000 mixedPool).1.account =
      some (erringState "a") ∧
    eligible 1000 (erringState "a") = false ∧
    ¬ BudgetPreference firstPositive defaultOptions 95 1000 1000 mixedPool := by
  have hmixed : ∃ s ∈ mixedPool, availableThroughout 1000 1000 s = true := by decide +kernel
  have hchoice : (selectAccountPreferringBudgetSafe firstPositive defaultOptions 95 1000 1000
      mixedPool).1.account = some (erringState "a") := by decide +kernel
  refine ⟨hmixed,hchoice,by decide +kernel,fun h => ?_⟩
  obtain ⟨x,hx,_,_,t,_,s,_,heligible,rfl⟩ := h.available hmixed
  have hfew := recovered_errorCount heligible
  rw [← Option.some.inj (hchoice.symm.trans hx)] at hfew
  exact absurd hfew (by decide)

end CodexLb.LoadBalancer
