import CodexLb.BalancerRaces

/-!
# What a sticky selection returns

The account of a result is one of the states as the selection leaves them, or a
copy of the pinned state: the grace period tries the pinned account as of ten
seconds later on a copy.
-/
namespace CodexLb.LoadBalancer
open TokenRefresh (AccountStatus)

theorem screened_status : (screenErrors current (clearCooldown current s)).2.status = s.status := by
  have hcooldown : (clearCooldown current s).status = s.status := by
    unfold clearCooldown
    split_ifs <;> rfl
  unfold screenErrors
  split_ifs <;> exact hcooldown

variable {current : ℚ} {s : AccountState}

theorem screen_available_status (h : (screen current s).1 ≠ .blocked) :
    (screen current s).2.status = .active := by
  unfold screen at h ⊢
  split at h
  · exact absurd rfl h
  · exact absurd rfl h
  · split_ifs at h ⊢
    · rw [screened_status]
    · exact absurd rfl h
  · split_ifs at h ⊢
    · rw [screened_status]
    · exact absurd rfl h
  · rename_i hs
    rw [screened_status,hs]

theorem screen_status_cases (current : ℚ) (s : AccountState) :
    (screen current s).2.status = s.status ∨ (screen current s).2.status = .active := by
  unfold screen
  split
  · exact .inl rfl
  · exact .inl rfl
  · split_ifs
    · exact .inr (screened_status)
    · exact .inl rfl
  · split_ifs
    · exact .inr (screened_status)
    · exact .inl rfl
  · exact .inl (screened_status)

theorem ahead_of_screen_limited (h : (screen current s).2.status = .rateLimited) :
    s.status = .rateLimited ∧ reached current s.resetAt = false := by
  unfold screen at h
  split at h
  · rename_i hs
    exact absurd (hs.symm.trans h) (by decide)
  · rename_i hs
    exact absurd (hs.symm.trans h) (by decide)
  · rename_i hs
    split_ifs at h with hr
    · rw [screened_status] at h
      cases h
    · exact ⟨hs,by simpa using hr⟩
  · rename_i hs
    split_ifs at h
    · rw [screened_status] at h
      cases h
    · exact absurd (hs.symm.trans h) (by decide)
  · rename_i hs
    rw [screened_status,hs] at h
    cases h

theorem screen_of_limited (h : (screen current s).2.status = .rateLimited) :
    screen current s = (.blocked,s) := by
  obtain ⟨hs,hr⟩ := ahead_of_screen_limited h
  exact screen_rateLimited hs hr

def Live (r : SelectionResult) (states : List AccountState) : Prop :=
  ∀ x, r.account = some x → x ∈ states ∧ x.status = .active

variable {states : List AccountState}

theorem live_selectAccount {c : Chance} {o : SelectOptions} {pool : List AccountState}
    (h : ∀ s ∈ pool, (screen current s).2 ∈ states) :
    Live (selectAccount c o current pool).1 states := by
  intro x hx
  obtain ⟨u,hu,rfl,hv⟩ := selectAccount_mem hx
  exact ⟨h u hu,screen_available_status hv⟩

theorem mem_screenWhere {p : AccountState → Bool} (hs : s ∈ states) (hp : p s) :
    (screen current s).2 ∈ screenWhere p current states :=
  List.mem_map.mpr ⟨s,hs,if_pos hp⟩

theorem find?_screenWhere (accountId : String) (current : ℚ) (states : List AccountState) :
    (screenWhere (fun s => s.accountId = accountId) current states).find?
      (fun s => s.accountId = accountId) =
      (states.find? fun s => s.accountId = accountId).map fun s => (screen current s).2 := by
  have hkeep : ∀ u : AccountState, (if decide (u.accountId = accountId) then (screen current u).2
      else u).accountId = u.accountId := by
    intro u
    split_ifs
    · exact screen_accountId current u
    · rfl
  rw [screenWhere,List.find?_map]
  simp only [Function.comp_def,hkeep]
  cases hfind : states.find? fun s => s.accountId = accountId with
  | none => rfl
  | some u =>
    have hid : u.accountId = accountId := by simpa using List.find?_some hfind
    rw [Option.map_some,Option.map_some,if_pos (decide_eq_true hid)]

theorem live_preferringBudgetSafe (c : Chance) (o : SelectOptions) (pct first second : ℚ)
    (states : List AccountState) :
    Live (selectAccountPreferringBudgetSafe c o pct first second states).1
      (selectAccountPreferringBudgetSafe c o pct first second states).2 := by
  have hwhole : ∀ (o : SelectOptions) (states : List AccountState),
      Live (selectAccount c o second states).1 (selectAccount c o second states).2 := by
    intro o states
    refine live_selectAccount fun s hs => ?_
    rw [selectAccount_states]
    exact List.mem_map_of_mem hs
  unfold selectAccountPreferringBudgetSafe
  simp only []
  split_ifs
  · exact hwhole _ _
  · refine live_selectAccount fun s hs => ?_
    obtain ⟨hmem,hsafe⟩ := List.mem_filter.mp hs
    exact mem_screenWhere hmem hsafe
  · exact hwhole _ _

namespace StickyCall
variable {q : StickyCall} {c : Chance} {t : StickyClock} {states : List AccountState}

variable {sticky : StickyRows}

theorem live_choose {persistFallback : Bool} :
    Live (q.choose c t persistFallback states sticky).result
      (q.choose c t persistFallback states sticky).states := by
  have hr := live_preferringBudgetSafe c (q.options true false) q.budgetThresholdPct t.chooseSafe
    t.chooseAll states
  unfold choose
  simp only []
  split <;> exact hr

variable {accountId : String}

theorem live_selectPinned : Live (q.selectPinned c current accountId states).1
      (q.selectPinned c current accountId states).2 := by
  refine live_selectAccount fun s hs => ?_
  have hfind := Option.mem_toList.mp hs
  have hid : s.accountId = accountId := by simpa using List.find?_some hfind
  exact mem_screenWhere (List.mem_of_find?_eq_some hfind) (decide_eq_true hid)

/-- The grace period returns a copy of a limited state and leaves the states. -/
structure Grace (t : StickyClock) (pinned : AccountState) (states : List AccountState)
    (r : Selected) : Prop where
  limited : pinned.status = .rateLimited
  available : (screen (t.grace+stickyGracePeriodSeconds) pinned).1 = .available
  result : r.result.account = some (screen (t.grace+stickyGracePeriodSeconds) pinned).2
  states : r.states = states

theorem fallBack_cases (accountId : String) (reallocate : Bool) (states : List AccountState)
    (sticky : StickyRows) :
    Live (q.fallBack c t accountId reallocate states sticky).result
      (q.fallBack c t accountId reallocate states sticky).states ∨
    reallocate = false ∧ ∃ pinned, states.find? (fun s => s.accountId = accountId) = some pinned ∧
      Grace t pinned states (q.fallBack c t accountId reallocate states sticky) := by
  unfold fallBack
  split
  · exact Or.inl (live_choose)
  · rename_i pinned hfind
    simp only []
    split_ifs with hgrace
    · refine Or.inr ⟨hgrace.1,pinned,hfind,?_⟩
      obtain ⟨x,hx⟩ := Option.isSome_iff_exists.mp hgrace.2.2
      obtain ⟨u,hu,rfl,_⟩ := selectAccount_mem hx
      rw [List.mem_singleton] at hu
      subst hu
      exact ⟨hgrace.2.1,(selectAccount_single c rfl _ _).mp hgrace.2.2,hx,rfl⟩
    · exact Or.inl (live_choose)
    · exact Or.inl (live_choose)
    · exact Or.inl (live_choose)

theorem live_underPressure : Live (q.underPressure c t accountId states sticky).result
      (q.underPressure c t accountId states sticky).states := by
  have hfall : ∀ states, Live (q.fallBack c t accountId true states sticky).result
      (q.fallBack c t accountId true states sticky).states := by
    intro states
    exact (fallBack_cases accountId true states sticky).resolve_right fun h => by cases h.1
  unfold underPressure
  simp only []
  split_ifs
  · exact live_selectPinned
  · exact hfall _
  · exact hfall _

/-- The mapping names the account, the caller does not reallocate, the end of
the limit is not ten minutes away for a prompt cache, it is still ahead when
the pinned account is tried, and the account is available ten seconds later. -/
def GracePicked (q : StickyCall) (t : StickyClock) (sticky : StickyRows) (s : AccountState) : Prop :=
  q.key ≠ "" ∧ s.accountId ≠ "" ∧
    (getAccountId sticky q.key q.kind q.maxAgeSeconds t.lookup).1 = some s.accountId ∧
    q.reallocate = false ∧ q.rateLimitFarAway t s = false ∧ reached t.pinned s.resetAt = false ∧
    (screen (t.grace+stickyGracePeriodSeconds) s).1 = .available

instance (q : StickyCall) (t : StickyClock) (sticky : StickyRows) (s : AccountState) :
    Decidable (GracePicked q t sticky s) := inferInstanceAs (Decidable (_ ∧ _ ∧ _ ∧ _ ∧ _ ∧ _ ∧ _))

section Distinct
variable (hnodup : (states.map (·.accountId)).Nodup) {s : AccountState}
include hnodup

theorem find?_of_mem (hs : s ∈ states) : states.find? (fun u => u.accountId = s.accountId) = some s :=
  ((⟨states,hnodup⟩ : KeyedTable AccountState.accountId).find?_eq_some _ _).mpr ⟨hs,rfl⟩

theorem selectPinned_limited (hs : s ∈ states) (hscreen : screen current s = (.blocked,s)) :
    (q.selectPinned c current s.accountId states).1.account = none ∧
      (q.selectPinned c current s.accountId states).2 = states := by
  constructor
  · rw [selectPinned,find?_of_mem hnodup hs,Option.toList_some]
    have hnot := (selectAccount_single c (o := q.options false false) rfl current s).not.mpr
      (by simp [hscreen])
    simpa using hnot
  · have hsame : ∀ u ∈ states, (if decide (u.accountId = s.accountId) then (screen current u).2
        else u) = u := by
      intro u hu
      split_ifs with hid
      · rw [List.inj_on_of_nodup_map hnodup hu hs (of_decide_eq_true hid),hscreen]
      · rfl
    exact (List.map_congr_left hsame).trans (List.map_id states)

theorem withPinned_cases (hs : s ∈ states) (sticky : StickyRows) :
    Live (q.withPinned c t s states sticky).result (q.withPinned c t s states sticky).states ∨
    (q.reallocate = false ∧ q.rateLimitFarAway t s = false ∧ reached t.pinned s.resetAt = false ∧
      Grace t s states (q.withPinned c t s states sticky)) := by
  unfold withPinned
  simp only []
  split_ifs with hbudget hfar hsome
  · exact Or.inl (live_underPressure)
  · exact Or.inl ((fallBack_cases _ true states sticky).resolve_right fun h => by cases h.1)
  · exact Or.inl (live_selectPinned)
  · rcases fallBack_cases (q := q) (c := c) (t := t) s.accountId q.reallocate
      (q.selectPinned c t.pinned s.accountId states).2 sticky with hlive | ⟨hre,p,hp,hgrace⟩
    · exact Or.inl hlive
    · rw [selectPinned,find?_screenWhere,find?_of_mem hnodup hs,Option.map_some] at hp
      obtain rfl := Option.some.inj hp
      have hahead := (ahead_of_screen_limited hgrace.limited).2
      have hscreen := screen_of_limited hgrace.limited
      rw [(selectPinned_limited hnodup hs hscreen).2,hscreen] at hgrace
      refine Or.inr ⟨hre,by simpa using hfar,hahead,?_⟩
      rw [(selectPinned_limited hnodup hs hscreen).2]
      exact hgrace

theorem selectWithStickiness_cases (sticky : StickyRows) :
    Live (q.selectWithStickiness c t states sticky).result
      (q.selectWithStickiness c t states sticky).states ∨
    ∃ p ∈ states, GracePicked q t sticky p ∧
      Grace t p states (q.selectWithStickiness c t states sticky) := by
  unfold selectWithStickiness
  simp only []
  split_ifs with hkey
  · exact Or.inl (live_preferringBudgetSafe _ _ _ _ _ _)
  · split
    · exact Or.inl (live_choose)
    · rename_i accountId hexisting
      split_ifs with hempty
      · exact Or.inl (live_choose)
      · split
        · exact Or.inl (live_choose)
        · rename_i p hfind
          have hp : p ∈ states := List.mem_of_find?_eq_some hfind
          obtain rfl : p.accountId = accountId := by simpa using List.find?_some hfind
          rcases withPinned_cases hnodup hp _ with hlive | ⟨hre,hfar,hahead,hgrace⟩
          · exact Or.inl hlive
          · exact Or.inr ⟨p,hp,⟨hkey,hempty,hexisting,hre,hfar,hahead,hgrace.available⟩,hgrace⟩

theorem gracePicked_selected (hs : s ∈ states) (hlimited : s.status = .rateLimited)
    {sticky : StickyRows} (h : GracePicked q t sticky s) :
    Grace t s states (q.selectWithStickiness c t states sticky) := by
  obtain ⟨hkey,hempty,hexisting,hre,hfar,hahead,havail⟩ := h
  have hfind := find?_of_mem hnodup hs
  have hbudget : q.budgetPressured s = false := by simp [budgetPressured,hlimited]
  obtain ⟨hnone,hsame⟩ := selectPinned_limited (q := q) (c := c) hnodup hs
    (screen_rateLimited hlimited hahead)
  have hgrace : (selectAccount c (q.options false false) (t.grace+stickyGracePeriodSeconds)
      [s]).1.account.isSome = true := (selectAccount_single c rfl _ s).mpr havail
  have hselected : q.selectWithStickiness c t states sticky =
      ⟨(selectAccount c (q.options false false) (t.grace+stickyGracePeriodSeconds) [s]).1,states,
        q.renew t s.accountId (getAccountId sticky q.key q.kind q.maxAgeSeconds t.lookup).2⟩ := by
    simp [selectWithStickiness,hkey,hexisting,hempty,hfind,withPinned,hbudget,hfar,hnone,hsame,
      fallBack,hre,hlimited,hgrace]
  obtain ⟨x,hx⟩ := Option.isSome_iff_exists.mp hgrace
  obtain ⟨u,hu,rfl,_⟩ := selectAccount_mem hx
  obtain rfl := List.mem_singleton.mp hu
  rw [hselected]
  exact ⟨hlimited,havail,hx,rfl⟩

end Distinct

end StickyCall

end CodexLb.LoadBalancer
