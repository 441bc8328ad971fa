import CodexLb.BalancerBudget
import CodexLb.BalancerGrace

/-!
# The mapping after a sticky selection

What `_select_with_stickiness` does to the sticky rows when its caller does not
reallocate. The row of the key and kind afterwards names the account that was
returned, or the account it named before; no other row is touched. An account that
can recover and is neither above its budget nor limited for long keeps a mapping
with a maximal age, whoever is returned.

A pinned account above its budget, or one of a prompt cache that is limited for ten
minutes or more, makes the selection reallocate on its own. It then deletes the row
before it looks for another account, and if there is none, the mapping is lost.
-/
namespace CodexLb.LoadBalancer
open TokenRefresh (AccountStatus)

/-- The account that a row names. -/
def mapping (rows : StickyRows) (slot : String × StickySessionKind) : Option String :=
  (rows.get? slot).map Prod.fst

namespace StickyCall

variable (q : StickyCall)

def slot : String × StickySessionKind := (q.key,q.kind)

def pinnedState (t : StickyClock) (states : List AccountState)
    (sticky : StickyRows) : Option AccountState :=
  match (getAccountId sticky q.key q.kind q.maxAgeSeconds t.lookup).1 with
  | none => none
  | some accountId =>
    if accountId = "" then none else states.find? fun s => s.accountId = accountId

/-- The row of the call names the returned account or the one it named before, and
the other rows are as they were. -/
structure Rebinds (q : StickyCall) (before after : StickyRows) (r : SelectionResult) : Prop where
  own : mapping after q.slot = r.account.map (·.accountId) ∨
    mapping after q.slot = mapping before q.slot
  others : ∀ slot, slot ≠ q.slot → after.get? slot = before.get? slot

structure MappingKept (q : StickyCall) (c : Chance) (t : StickyClock) (states : List AccountState)
    (sticky : StickyRows) : Prop where
  rebinds : q.Rebinds sticky (q.selectWithStickiness c t states sticky).sticky
    (q.selectWithStickiness c t states sticky).result
  unanswered : (q.selectWithStickiness c t states sticky).result.account = none →
    (q.pinnedState t states sticky).isSome = true →
    (q.selectWithStickiness c t states sticky).sticky.get? q.slot = sticky.get? q.slot
  recovering : ∀ pinned, q.pinnedState t states sticky = some pinned →
    q.maxAgeSeconds.isSome = true → isRecoverable pinned.status = true →
    stateAboveStickyBudgetThreshold q.budgetThresholdPct pinned = false →
    ¬ (pinned.status = .rateLimited ∧ pinned.resetAt.any (fun r => decide (600 ≤ r-t.now)) = true) →
    mapping (q.selectWithStickiness c t states sticky).sticky q.slot = some pinned.accountId

/-- The selection that looks for something better than a pinned account above its
budget. -/
def probe (c : Chance) (t : StickyClock) (states : List AccountState) :
    SelectionResult × List AccountState :=
  selectAccountPreferringBudgetSafe c (q.options true true) q.budgetThresholdPct t.probeSafe
    t.probeAll states

/-- `pool_also_exhausted`. -/
def poolAlsoExhausted (c : Chance) (t : StickyClock) (accountId : String)
    (states : List AccountState) : Bool :=
  (q.probe c t states).1.account.any fun s => s.accountId = accountId ||
    q.poolExhausted ((q.probe c t states).2.find? fun s => s.accountId = accountId) s

def replaceable (t : StickyClock) (states : List AccountState) : Bool :=
  budgetSelectable q.budgetThresholdPct t.chooseSafe t.chooseAll states

/-- A pinned account that is given up is available after all, or can be replaced. -/
def covered (c : Chance) (t : StickyClock) (pinned : AccountState)
    (states : List AccountState) : Bool :=
  if q.budgetPressured pinned then
    let probed := (q.probe c t states).2
    if q.poolAlsoExhausted c t pinned.accountId states then
      (probed.find? fun s => s.accountId = pinned.accountId).any (eligible t.pinnedAgain) ||
        q.replaceable t (screenWhere (fun s => s.accountId = pinned.accountId) t.pinnedAgain probed)
    else q.replaceable t probed
  else !q.rateLimitFarAway t pinned || q.replaceable t states

section
variable {q : StickyCall} {c : Chance} {t : StickyClock} {states : List AccountState}
  {sticky before : StickyRows}

theorem bind_slot : mapping (q.bind t accountId sticky) q.slot = some accountId := by
  simp [mapping,bind,slot,Dict.get?_set]

theorem bind_other {k : String × StickySessionKind} (h : k ≠ q.slot) :
    (q.bind t accountId sticky).get? k = sticky.get? k := by
  rw [bind,Dict.get?_set]
  exact if_neg h

variable {persistFallback : Bool}

theorem choose_result : (q.choose c t persistFallback states sticky).result =
      (selectAccountPreferringBudgetSafe c (q.options true false) q.budgetThresholdPct t.chooseSafe
        t.chooseAll states).1 := by
  unfold choose
  simp only []
  split <;> rfl

theorem choose_answered :
    (q.choose c t persistFallback states sticky).result.account.isSome = q.replaceable t states := by
  rw [choose_result]
  exact preferringBudgetSafe_isSome c rfl _ _ _ _

theorem choose_sticky : (q.choose c t persistFallback states sticky).sticky =
      match persistFallback,(q.choose c t persistFallback states sticky).result.account with
      | true,some x => q.bind t x.accountId sticky
      | _,_ => sticky := by
  unfold choose
  cases hx : (selectAccountPreferringBudgetSafe c (q.options true false) q.budgetThresholdPct
      t.chooseSafe t.chooseAll states).1.account with
  | none => cases persistFallback <;> simp only [hx]
  | some x =>
    cases persistFallback with
    | false => rfl
    | true =>
      obtain ⟨s,hs,hscreened,_⟩ := affordable_choice hx
      have hmem : x.accountId ∈ states.map (·.accountId) :=
        hscreened.accountId ▸ List.mem_map_of_mem hs
      simp only [hx]
      exact if_pos hmem

variable {accountId : String} {T : ℚ → Prop} {after : List AccountState}

theorem find?_of_screened (h : AllScreened T states after)
    (hfind : (states.find? fun s => s.accountId = accountId).isSome = true) :
    ∃ p, after.find? (fun s => s.accountId = accountId) = some p := by
  rw [← Option.isSome_iff_exists]
  rw [List.find?_isSome] at hfind ⊢
  obtain ⟨s,hs,hid⟩ := hfind
  have hmem : s.accountId ∈ after.map (·.accountId) := h.accountIds ▸ List.mem_map_of_mem hs
  obtain ⟨u,hu,hsu⟩ := List.mem_map.mp hmem
  exact ⟨u,hu,by simpa [hsu] using hid⟩

theorem fallBack_reallocate {p : AccountState}
    (h : states.find? (fun s => s.accountId = accountId) = some p) :
    q.fallBack c t accountId true states sticky =
      q.choose c t true states (sticky.pop q.slot) := by
  simp [fallBack,h,slot]

theorem choose_rebinds (hothers : ∀ k, k ≠ q.slot → sticky.get? k = before.get? k)
    (hown : mapping sticky q.slot = mapping before q.slot ∨ persistFallback = true ∧ mapping
      sticky q.slot = none) :
    q.Rebinds before (q.choose c t persistFallback states sticky).sticky
      (q.choose c t persistFallback states sticky).result := by
  rw [choose_sticky]
  cases hx : (q.choose c t persistFallback states sticky).result.account with
  | none =>
    refine ⟨?_,by cases persistFallback <;> exact hothers⟩
    rw [hx]
    rcases hown with hsame | ⟨_,hnone⟩
    · exact .inr (by cases persistFallback <;> exact hsame)
    · exact .inl (by cases persistFallback <;> exact hnone)
  | some x =>
    cases persistFallback with
    | true => exact ⟨.inl (by rw [hx]; exact bind_slot),fun k hk => (bind_other hk).trans (hothers k hk)⟩
    | false => exact ⟨.inr (hown.resolve_right fun h => by cases h.1),hothers⟩

theorem choose_rebinds_pop : q.Rebinds sticky (q.choose c t true states (sticky.pop q.slot)).sticky
      (q.choose c t true states (sticky.pop q.slot)).result := by
  refine choose_rebinds (fun k hk => ?_) (.inr ⟨rfl,?_⟩)
  · rw [Dict.get?_pop,if_neg hk]
  · simp [mapping,Dict.get?_pop]

theorem renew_mapping (h : mapping sticky q.slot = some accountId) :
    mapping (q.renew t accountId sticky) q.slot = some accountId := by
  unfold renew
  split_ifs
  · exact bind_slot
  · exact h

theorem renew_rebinds (h : mapping sticky q.slot = some accountId) {r : SelectionResult} :
    q.Rebinds sticky (q.renew t accountId sticky) r := by
  refine ⟨.inr (by rw [renew_mapping h,h]),fun k hk => ?_⟩
  unfold renew
  split_ifs
  · exact bind_other hk
  · rfl

theorem fallBack_rebinds (h : mapping sticky q.slot = some accountId) {reallocate : Bool} :
    q.Rebinds sticky (q.fallBack c t accountId reallocate states sticky).sticky
      (q.fallBack c t accountId reallocate states sticky).result := by
  unfold fallBack
  split
  · exact choose_rebinds (fun _ _ => rfl) (.inl rfl)
  · simp only []
    split_ifs
    · exact renew_rebinds h
    · exact choose_rebinds_pop
    · exact choose_rebinds (fun _ _ => rfl) (.inl rfl)
    · exact choose_rebinds (fun _ _ => rfl) (.inl rfl)

variable {pinned : AccountState}

theorem withPinned_rebinds (h : mapping sticky q.slot = some pinned.accountId) :
    q.Rebinds sticky (q.withPinned c t pinned states sticky).sticky
      (q.withPinned c t pinned states sticky).result := by
  unfold withPinned underPressure
  simp only []
  split_ifs
  · exact renew_rebinds h
  · exact fallBack_rebinds h
  · exact fallBack_rebinds h
  · exact fallBack_rebinds h
  · exact renew_rebinds h
  · exact fallBack_rebinds h

theorem getAccountId_some
    (h : (getAccountId sticky q.key q.kind q.maxAgeSeconds t.lookup).1 = some accountId) :
    (getAccountId sticky q.key q.kind q.maxAgeSeconds t.lookup).2 = sticky ∧
      mapping sticky q.slot = some accountId := by
  unfold getAccountId at h ⊢
  split at h
  · cases h
  · rename_i x stamp hrow
    split_ifs at h ⊢
    cases h
    exact ⟨rfl,by simp [mapping,slot,hrow]⟩

theorem getAccountId_none
    (h : (getAccountId sticky q.key q.kind q.maxAgeSeconds t.lookup).1 = none) :
    (∀ k, k ≠ q.slot →
      (getAccountId sticky q.key q.kind q.maxAgeSeconds t.lookup).2.get? k = sticky.get? k) ∧
    (mapping (getAccountId sticky q.key q.kind q.maxAgeSeconds t.lookup).2 q.slot =
      mapping sticky q.slot ∨
      mapping (getAccountId sticky q.key q.kind q.maxAgeSeconds t.lookup).2 q.slot = none) := by
  unfold getAccountId at h ⊢
  split at h
  · exact ⟨fun _ _ => rfl,.inl rfl⟩
  · split_ifs at h ⊢
    refine ⟨fun k hk => ?_,.inr ?_⟩
    · rw [Dict.get?_pop]
      exact if_neg hk
    · simp [mapping,slot,Dict.get?_pop]

theorem pinnedState_some {pinned : AccountState} (h : q.pinnedState t states sticky = some pinned) :
    mapping sticky q.slot = some pinned.accountId ∧
      states.find? (fun s => s.accountId = pinned.accountId) = some pinned ∧
      (q.key ≠ "" →
        q.selectWithStickiness c t states sticky = q.withPinned c t pinned states sticky) := by
  unfold pinnedState at h
  split at h
  · cases h
  · rename_i accountId hexisting
    split_ifs at h with hempty
    obtain ⟨hrows,hmapping⟩ := getAccountId_some hexisting
    obtain rfl : pinned.accountId = accountId := by simpa using List.find?_some h
    refine ⟨hmapping,h,fun hkey => ?_⟩
    simp [selectWithStickiness,hkey,hexisting,hempty,h,hrows]

theorem selectWithStickiness_rebinds :
    q.Rebinds sticky (q.selectWithStickiness c t states sticky).sticky
      (q.selectWithStickiness c t states sticky).result := by
  unfold selectWithStickiness
  simp only []
  split_ifs with hkey
  · exact ⟨.inr rfl,fun _ _ => rfl⟩
  · split
    · rename_i hnone
      obtain ⟨hothers,hown⟩ := getAccountId_none hnone
      exact choose_rebinds hothers (hown.imp id fun h => ⟨rfl,h⟩)
    · rename_i accountId hsome
      obtain ⟨hrows,hmapping⟩ := getAccountId_some hsome
      rw [hrows]
      split_ifs
      · exact choose_rebinds (fun _ _ => rfl) (.inl rfl)
      · split
        · exact choose_rebinds_pop
        · rename_i pinned hfind
          have hid : pinned.accountId = accountId := by simpa using List.find?_some hfind
          exact withPinned_rebinds (hid ▸ hmapping)

theorem selectPinned_isSome (current : ℚ) (accountId : String) :
    (q.selectPinned c current accountId states).1.account.isSome =
      (states.find? fun s => s.accountId = accountId).any (eligible current) := by
  unfold selectPinned
  cases states.find? fun s => s.accountId = accountId with
  | none => simp [selectAccount_nil]
  | some p =>
    rw [Option.toList_some,Option.any_some,Bool.eq_iff_iff,← verdict_available]
    exact selectAccount_single c rfl current p

/-- A mapping that is given up is lost exactly if nothing replaces the account. -/
theorem fallBack_given_up (h : (states.find? fun s => s.accountId = accountId).isSome = true)
    (hafter : AllScreened T states after) :
    (q.fallBack c t accountId true after sticky).result.account.isSome = q.replaceable t after ∧
      ((q.fallBack c t accountId true after sticky).result.account = none →
        (q.fallBack c t accountId true after sticky).sticky.get? q.slot = none) := by
  obtain ⟨p,hp⟩ := find?_of_screened hafter h
  rw [fallBack_reallocate hp]
  refine ⟨choose_answered,fun hnone => ?_⟩
  rw [choose_sticky,hnone]
  simp [Dict.get?_pop]

theorem underPressure_eq : q.underPressure c t accountId states sticky =
      if q.poolAlsoExhausted c t accountId states = true then
        let r := q.selectPinned c t.pinnedAgain accountId (q.probe c t states).2
        if r.1.account.isSome = true then ⟨r.1,r.2,q.renew t accountId sticky⟩
        else q.fallBack c t accountId true r.2 sticky
      else q.fallBack c t accountId true (q.probe c t states).2 sticky := rfl

theorem underPressure_given_up
    (hfind : (states.find? fun s => s.accountId = pinned.accountId).isSome = true)
    (hpressed : q.budgetPressured pinned = true) :
    (q.underPressure c t pinned.accountId states sticky).result.account.isSome =
        q.covered c t pinned states ∧
      ((q.underPressure c t pinned.accountId states sticky).result.account = none →
        (q.underPressure c t pinned.accountId states sticky).sticky.get? q.slot = none) := by
  have hprobed : AllScreened (fun _ => True) states (q.probe c t states).2 :=
    (AllScreened.refl _ states).preferringBudgetSafe c _ _ trivial trivial
  rw [underPressure_eq,covered,if_pos hpressed]
  by_cases hexhausted : q.poolAlsoExhausted c t pinned.accountId states = true
  · rw [if_pos hexhausted,if_pos hexhausted,← @selectPinned_isSome q c]
    by_cases hagain : (q.selectPinned c t.pinnedAgain pinned.accountId
        (q.probe c t states).2).1.account.isSome = true
    · rw [if_pos hagain]
      refine ⟨by simp [hagain],fun hnone => ?_⟩
      rw [hnone] at hagain
      cases hagain
    · rw [if_neg hagain,Bool.eq_false_iff.mpr hagain,Bool.false_or]
      exact fallBack_given_up hfind (hprobed.screenWhere _ trivial)
  · rw [if_neg hexhausted,if_neg hexhausted]
    exact fallBack_given_up hfind hprobed

theorem withPinned_given_up {pinned : AccountState}
    (hfind : (states.find? fun s => s.accountId = pinned.accountId).isSome = true)
    (hgiven : q.budgetPressured pinned = true ∨ q.rateLimitFarAway t pinned = true) :
    (q.withPinned c t pinned states sticky).result.account.isSome = q.covered c t pinned states ∧
      ((q.withPinned c t pinned states sticky).result.account = none →
        (q.withPinned c t pinned states sticky).sticky.get? q.slot = none) := by
  unfold withPinned
  by_cases hpressed : q.budgetPressured pinned = true
  · rw [if_pos hpressed]
    exact underPressure_given_up hfind hpressed
  · have hfar := hgiven.resolve_left hpressed
    rw [if_neg hpressed,if_pos hfar,covered,if_neg hpressed,hfar]
    exact fallBack_given_up hfind (AllScreened.refl (fun _ => True) states)

theorem fallBack_kept_cases (accountId : String) (states : List AccountState) (sticky : StickyRows) :
    ((q.fallBack c t accountId false states sticky).result.account.isSome = true ∧
      (q.fallBack c t accountId false states sticky).sticky = q.renew t accountId sticky) ∨
    ∃ persistFallback, q.fallBack c t accountId false states sticky =
        q.choose c t persistFallback states sticky ∧
      ∀ p, states.find? (fun s => s.accountId = accountId) = some p →
        isRecoverable p.status = true → persistFallback = q.maxAgeSeconds.isNone := by
  unfold fallBack
  split
  · rename_i hfind
    refine .inr ⟨true,rfl,fun p hp => ?_⟩
    rw [hfind] at hp
    cases hp
  · rename_i pinned hfind
    simp only [Bool.false_eq_true,if_false]
    split_ifs with hgrace hdown
    · exact .inl ⟨hgrace.2.2,rfl⟩
    · refine .inr ⟨true,rfl,fun p hp hrecoverable => ?_⟩
      rw [← Option.some.inj (hfind.symm.trans hp),hdown] at hrecoverable
      cases hrecoverable
    · exact .inr ⟨_,rfl,fun _ _ _ => rfl⟩

section Kept
variable {pinned : AccountState} (hre : q.reallocate = false)
  (hpressed : q.budgetPressured pinned = false) (hfar : q.rateLimitFarAway t pinned = false)
include hre hpressed hfar

theorem withPinned_kept_cases (c : Chance) (states : List AccountState) (sticky : StickyRows) :
    ((q.withPinned c t pinned states sticky).result.account.isSome = true ∧
      (q.withPinned c t pinned states sticky).sticky = q.renew t pinned.accountId sticky) ∨
    ∃ persistFallback after, q.withPinned c t pinned states sticky =
        q.choose c t persistFallback after sticky ∧
      after = (q.selectPinned c t.pinned pinned.accountId states).2 ∧
      ∀ p, after.find? (fun s => s.accountId = pinned.accountId) = some p →
        isRecoverable p.status = true → persistFallback = q.maxAgeSeconds.isNone := by
  unfold withPinned
  rw [hpressed,hfar,hre]
  simp only [Bool.false_eq_true,if_false]
  split_ifs with hsome
  · exact .inl ⟨hsome,rfl⟩
  · rcases fallBack_kept_cases (q := q) (c := c) (t := t) pinned.accountId
      (q.selectPinned c t.pinned pinned.accountId states).2 sticky with h | ⟨persist,heq,hpersist⟩
    · exact .inl h
    · exact .inr ⟨persist,_,heq,rfl,hpersist⟩

theorem withPinned_unanswered
    (hnone : (q.withPinned c t pinned states sticky).result.account = none) :
    (q.withPinned c t pinned states sticky).sticky = sticky := by
  rcases withPinned_kept_cases hre hpressed hfar c states sticky with
    ⟨hsome,_⟩ | ⟨persist,after,heq,_,_⟩
  · rw [hnone] at hsome
    cases hsome
  · rw [heq] at hnone ⊢
    rw [choose_sticky,hnone]
    cases persist <;> rfl

theorem withPinned_recovering (hage : q.maxAgeSeconds.isSome = true)
    (hrecoverable : isRecoverable pinned.status = true)
    (hfind : states.find? (fun s => s.accountId = pinned.accountId) = some pinned)
    (hmapping : mapping sticky q.slot = some pinned.accountId) :
    mapping (q.withPinned c t pinned states sticky).sticky q.slot = some pinned.accountId := by
  rcases withPinned_kept_cases hre hpressed hfar c states sticky with
    ⟨_,hsticky⟩ | ⟨persist,after,heq,hafter,hpersist⟩
  · rw [hsticky]
    exact renew_mapping hmapping
  · have hscreened : after.find? (fun s => s.accountId = pinned.accountId) =
        some (screen t.pinned pinned).2 := by
      rw [hafter,selectPinned,find?_screenWhere,hfind,Option.map_some]
    have hstatus : isRecoverable (screen t.pinned pinned).2.status = true := by
      rcases screen_status_cases t.pinned pinned with h | h
      · rw [h]
        exact hrecoverable
      · rw [h]
        rfl
    have hnone : q.maxAgeSeconds.isNone = false := by
      rw [Option.isNone_eq_false_iff]
      exact hage
    rw [heq,choose_sticky,hpersist _ hscreened hstatus,hnone]
    exact hmapping

end Kept

theorem unanswered_iff (hre : q.reallocate = false)
    (hfind : states.find? (fun s => s.accountId = pinned.accountId) = some pinned)
    (hmapping : mapping sticky q.slot = some pinned.accountId) :
    ((q.withPinned c t pinned states sticky).result.account = none →
      (q.withPinned c t pinned states sticky).sticky.get? q.slot = sticky.get? q.slot) ↔
      q.covered c t pinned states = true := by
  by_cases hgiven : q.budgetPressured pinned = true ∨ q.rateLimitFarAway t pinned = true
  · obtain ⟨hanswer,hlost⟩ := @withPinned_given_up q c t states sticky pinned
      (by rw [hfind]; rfl) hgiven
    rw [← hanswer]
    constructor
    · intro hkept
      by_contra hnone
      rw [Bool.not_eq_true,Option.isSome_eq_false_iff,Option.isNone_iff_eq_none] at hnone
      rw [mapping,← hkept hnone,hlost hnone] at hmapping
      cases hmapping
    · intro hsome hnone
      rw [hnone] at hsome
      cases hsome
  · rw [not_or,Bool.not_eq_true,Bool.not_eq_true] at hgiven
    have hcovered : q.covered c t pinned states = true := by simp [covered,hgiven.1,hgiven.2]
    refine ⟨fun _ => hcovered,fun _ hnone => ?_⟩
    rw [withPinned_unanswered hre hgiven.1 hgiven.2 hnone]

theorem kept_iff (hre : q.reallocate = false) : q.MappingKept c t states sticky ↔
    ∀ pinned, q.key ≠ "" → q.pinnedState t states sticky = some pinned →
      q.covered c t pinned states = true := by
  constructor
  · intro h pinned hkey hpinned
    obtain ⟨hmapping,hfind,heq⟩ := @pinnedState_some q c t states sticky pinned hpinned
    refine (unanswered_iff hre hfind hmapping).mp fun hnone => ?_
    rw [← heq hkey] at hnone ⊢
    exact h.unanswered hnone (by rw [hpinned]; rfl)
  · intro h
    by_cases hkey : q.key = ""
    · have hrows : (q.selectWithStickiness c t states sticky).sticky = sticky := by
        unfold selectWithStickiness
        rw [if_pos hkey]
      refine ⟨selectWithStickiness_rebinds,fun _ _ => by rw [hrows],fun pinned hpinned _ _ _ _ => ?_⟩
      rw [hrows]
      exact (@pinnedState_some q c t states sticky pinned hpinned).1
    · refine ⟨selectWithStickiness_rebinds,fun hnone hsome => ?_,
        fun pinned hpinned hage hrecoverable hbudget hlimit => ?_⟩
      · obtain ⟨pinned,hpinned⟩ := Option.isSome_iff_exists.mp hsome
        obtain ⟨hmapping,hfind,heq⟩ := @pinnedState_some q c t states sticky pinned hpinned
        rw [heq hkey] at hnone ⊢
        exact (unanswered_iff hre hfind hmapping).mpr (h pinned hkey hpinned) hnone
      · obtain ⟨hmapping,hfind,heq⟩ := @pinnedState_some q c t states sticky pinned hpinned
        have hpressed : q.budgetPressured pinned = false := by simp [budgetPressured,hbudget]
        have hfar : q.rateLimitFarAway t pinned = false := by
          refine Bool.eq_false_iff.mpr fun hfar => hlimit ?_
          simp only [rateLimitFarAway,Bool.and_eq_true,decide_eq_true_eq] at hfar
          exact ⟨hfar.1.2,hfar.2⟩
        rw [heq hkey]
        exact withPinned_recovering hre hpressed hfar hage hrecoverable hfind hmapping

end

/-- The mapping is kept exactly if a pinned account that is given up is covered. -/
theorem mapping_kept_iff (q : StickyCall) (c : Chance) (t : StickyClock)
    (states : List AccountState) (sticky : StickyRows) :
    MappingKept {q with reallocate := false} c t states sticky ↔
      ∀ pinned, q.key ≠ "" → q.pinnedState t states sticky = some pinned →
        q.covered c t pinned states = true :=
  kept_iff (q := {q with reallocate := false}) rfl

/-- An account above its budget that cools down until 1050, and a paused one. -/
def coolingPool : List AccountState :=
  [{plainState "a" .active with usedPercent := some 99,cooldownUntil := some 1050},
    plainState "b" .paused]

def sessionRows : StickyRows := Dict.empty.set ("k",.codexSession) ("a",990)

def sessionClock : StickyClock := ⟨1000,1000,1000,1000,1000,1000,1000,1000,1000,1000⟩

/-- The session is mapped to the first account. Nothing is returned, and the row is
gone. -/
theorem affinity_lost :
    (sessionCall.pinnedState sessionClock coolingPool sessionRows).isSome = true ∧
    (sessionCall.selectWithStickiness sampleChance sessionClock coolingPool sessionRows).result.account =
      none ∧
    (sessionCall.selectWithStickiness sampleChance sessionClock coolingPool sessionRows).sticky.get?
      sessionCall.slot = none ∧
    ¬ sessionCall.MappingKept sampleChance sessionClock coolingPool sessionRows := by
  have hpinned : (sessionCall.pinnedState sessionClock coolingPool sessionRows).isSome = true := by
    decide +kernel
  have hnone : (sessionCall.selectWithStickiness sampleChance sessionClock coolingPool
      sessionRows).result.account = none := by decide +kernel
  have hrow : (sessionCall.selectWithStickiness sampleChance sessionClock coolingPool
      sessionRows).sticky.get? sessionCall.slot = none := by decide +kernel
  refine ⟨hpinned,hnone,hrow,fun h => ?_⟩
  have hkept := h.unanswered hnone hpinned
  exact absurd hkept (by decide +kernel)

end StickyCall

end CodexLb.LoadBalancer
