import CodexLb.BalancerState

/-!
# Sticky selection

`_select_account_preferring_budget_safe` and `_select_with_stickiness` over the
states of one selection, and the rows of the sticky sessions they read and
write. A selection works on the state objects themselves, so every function
returns all states as it leaves them; only the grace-period selection works on a
copy. The accounts of a pool have different ids, and an object is named by the
id of its account.

Each call that reads the clock has its own reading.
-/
namespace CodexLb.LoadBalancer
open TokenRefresh (AccountStatus)

def stateAboveBudgetThreshold (pct : ℚ) (s : AccountState) : Bool := s.usedPercent.any (pct < ·)

def stateAboveStickyBudgetThreshold (pct : ℚ) (s : AccountState) : Bool :=
  s.usedPercent.any (pct < ·) || s.secondaryUsedPercent.any (pct < ·)

def screenWhere (p : AccountState → Bool) (current : ℚ) (states : List AccountState) :
    List AccountState :=
  states.map fun s => if p s then (screen current s).2 else s

/-- Two clock readings, one for each call of `select_account`. -/
def selectAccountPreferringBudgetSafe (c : Chance) (o : SelectOptions) (pct first second : ℚ)
    (states : List AccountState) : SelectionResult × List AccountState :=
  let whole (states : List AccountState) :=
    selectAccount c {o with
      primaryFirstUsageWeighted := o.routingStrategy = .usageWeighted ∧ states ≠ []} second states
  let safe := fun s => !stateAboveBudgetThreshold pct s
  let preferred := states.filter safe
  if preferred = [] then whole states
  else
    let result := (selectAccount c {o with primaryFirstUsageWeighted := false} first preferred).1
    let after := screenWhere safe first states
    if result.account.isSome ∨ preferred.length = states.length then (result,after) else whole after

inductive StickySessionKind where
  | codexSession | stickyThread | promptCache
  deriving DecidableEq, Repr

abbrev StickyRows := Dict (String × StickySessionKind) (String × ℚ)

/-- `get_account_id`: an entry that is too old is deleted. -/
def getAccountId (rows : StickyRows) (key : String) (kind : StickySessionKind)
    (maxAgeSeconds : Option ℚ) (now : ℚ) : Option String × StickyRows :=
  match rows.get? (key,kind) with
  | none => (none,rows)
  | some (accountId,updatedAt) =>
    if maxAgeSeconds.any (fun age => updatedAt < now-age) then (none,rows.pop (key,kind))
    else (some accountId,rows)

structure StickyCall where
  key : String
  kind : StickySessionKind
  reallocate : Bool
  maxAgeSeconds : Option ℚ
  budgetThresholdPct : ℚ
  preferEarlierReset : Bool
  routingStrategy : RoutingStrategy
  deriving DecidableEq, Repr

/-- One reading per call that asks for the time, in the order of the source;
`stamp` is the time the database gives to a sticky row. -/
structure StickyClock where
  lookup : ℚ
  now : ℚ
  pinned : ℚ
  probeSafe : ℚ
  probeAll : ℚ
  pinnedAgain : ℚ
  grace : ℚ
  chooseSafe : ℚ
  chooseAll : ℚ
  stamp : ℚ
  deriving DecidableEq, Repr

/-- The readings at which a selection may screen the states. -/
def StickyClock.screens (t : StickyClock) : List ℚ :=
  [t.pinned,t.probeSafe,t.probeAll,t.pinnedAgain,t.chooseSafe,t.chooseAll]

structure Selected where
  result : SelectionResult
  states : List AccountState
  sticky : StickyRows

namespace StickyCall
variable (q : StickyCall)

def options (allowBackoffFallback deterministicProbe : Bool) : SelectOptions :=
  ⟨q.preferEarlierReset,q.routingStrategy,allowBackoffFallback,deterministicProbe,false⟩

def bind (t : StickyClock) (accountId : String) (sticky : StickyRows) : StickyRows :=
  sticky.set (q.key,q.kind) (accountId,t.stamp)

/-- `if sticky_max_age_seconds is not None: upsert`. -/
def renew (t : StickyClock) (accountId : String) (sticky : StickyRows) : StickyRows :=
  if q.maxAgeSeconds.isSome then q.bind t accountId sticky else sticky

/-- `select_account([pinned], allow_backoff_fallback=False)` on the object. -/
def selectPinned (c : Chance) (current : ℚ) (accountId : String) (states : List AccountState) :
    SelectionResult × List AccountState :=
  ((selectAccount c (q.options false false) current
      (states.find? fun s => s.accountId = accountId).toList).1,
    screenWhere (fun s => s.accountId = accountId) current states)

def choose (c : Chance) (t : StickyClock) (persistFallback : Bool) (states : List AccountState)
    (sticky : StickyRows) : Selected :=
  let r := selectAccountPreferringBudgetSafe c (q.options true false) q.budgetThresholdPct
    t.chooseSafe t.chooseAll states
  match persistFallback,r.1.account with
  | true,some s =>
    ⟨r.1,r.2,if s.accountId ∈ states.map (·.accountId) then q.bind t s.accountId sticky else sticky⟩
  | _,_ => ⟨r.1,r.2,sticky⟩

def stickyGracePeriodSeconds : ℚ := 10

def isRecoverable : AccountStatus → Bool
  | .active | .rateLimited | .quotaExceeded => true
  | .paused | .deactivated => false

/-- What follows when the pinned account was not selected: the grace period on
a copy, then the mapping, then the whole pool. -/
def fallBack (c : Chance) (t : StickyClock) (accountId : String) (reallocate : Bool)
    (states : List AccountState) (sticky : StickyRows) : Selected :=
  match states.find? fun s => s.accountId = accountId with
  | none => q.choose c t true states sticky
  | some pinned =>
    let grace := (selectAccount c (q.options false false) (t.grace+stickyGracePeriodSeconds)
      [pinned]).1
    if reallocate = false ∧ pinned.status = .rateLimited ∧ grace.account.isSome then
      ⟨grace,states,q.renew t accountId sticky⟩
    else if reallocate then q.choose c t true states (sticky.pop (q.key,q.kind))
    else if isRecoverable pinned.status = false then q.choose c t true states sticky
    else q.choose c t (q.maxAgeSeconds.isNone) states sticky

def poolExhausted (pinned : Option AccountState) (s : AccountState) : Bool :=
  if pinned.any (stateAboveBudgetThreshold q.budgetThresholdPct)
  then stateAboveBudgetThreshold q.budgetThresholdPct s
  else stateAboveStickyBudgetThreshold q.budgetThresholdPct s

/-- A pinned account above its budget: it is kept only if the pool has nothing
better. -/
def underPressure (c : Chance) (t : StickyClock) (accountId : String) (states : List AccountState)
    (sticky : StickyRows) : Selected :=
  let best := selectAccountPreferringBudgetSafe c (q.options true true) q.budgetThresholdPct
    t.probeSafe t.probeAll states
  let pinned := best.2.find? fun s => s.accountId = accountId
  if best.1.account.any (fun s => s.accountId = accountId || q.poolExhausted pinned s) then
    let r := q.selectPinned c t.pinnedAgain accountId best.2
    if r.1.account.isSome then ⟨r.1,r.2,q.renew t accountId sticky⟩
    else q.fallBack c t accountId true r.2 sticky
  else q.fallBack c t accountId true best.2 sticky

def rateLimitFarAway (t : StickyClock) (pinned : AccountState) : Bool :=
  q.kind = .promptCache && pinned.status = .rateLimited &&
    pinned.resetAt.any fun r => 600 ≤ r-t.now

/-- Every sticky kind is rebound under budget pressure. -/
def budgetPressured (pinned : AccountState) : Bool :=
  pinned.status ≠ .rateLimited && stateAboveStickyBudgetThreshold q.budgetThresholdPct pinned

def withPinned (c : Chance) (t : StickyClock) (pinned : AccountState) (states : List AccountState)
    (sticky : StickyRows) : Selected :=
  if q.budgetPressured pinned then q.underPressure c t pinned.accountId states sticky
  else if q.rateLimitFarAway t pinned then q.fallBack c t pinned.accountId true states sticky
  else
    let r := q.selectPinned c t.pinned pinned.accountId states
    if r.1.account.isSome then ⟨r.1,r.2,q.renew t pinned.accountId sticky⟩
    else q.fallBack c t pinned.accountId q.reallocate r.2 sticky

def selectWithStickiness (c : Chance) (t : StickyClock) (states : List AccountState)
    (sticky : StickyRows) : Selected :=
  if q.key = "" then
    let r := selectAccountPreferringBudgetSafe c (q.options true false) q.budgetThresholdPct
      t.chooseSafe t.chooseAll states
    ⟨r.1,r.2,sticky⟩
  else
    let existing := getAccountId sticky q.key q.kind q.maxAgeSeconds t.lookup
    match existing.1 with
    | none => q.choose c t true states existing.2
    | some accountId =>
      if accountId = "" then q.choose c t true states existing.2
      else match states.find? fun s => s.accountId = accountId with
        | none => q.choose c t true states (existing.2.pop (q.key,q.kind))
        | some pinned => q.withPinned c t pinned states existing.2

end StickyCall

/-- A state after any number of screenings at readings that meet `T`. -/
inductive Screened (T : ℚ → Prop) : AccountState → AccountState → Prop
  | refl (s : AccountState) : Screened T s s
  | step {s u : AccountState} (t : ℚ) (ht : T t) (h : Screened T s u) : Screened T s (screen t u).2

abbrev AllScreened (T : ℚ → Prop) : List AccountState → List AccountState → Prop :=
  List.Forall₂ (Screened T)

theorem AllScreened.refl (T : ℚ → Prop) (states : List AccountState) : AllScreened T states states :=
  List.forall₂_same.mpr fun s _ => .refl s

variable {T : ℚ → Prop} {states after : List AccountState} {t : ℚ}

theorem AllScreened.screenWhere (h : AllScreened T states after) (p : AccountState → Bool)
    (ht : T t) : AllScreened T states (screenWhere p t after) := by
  rw [LoadBalancer.screenWhere,AllScreened,List.forall₂_map_right_iff]
  refine h.imp fun s u hsu => ?_
  split_ifs
  · exact hsu.step t ht
  · exact hsu

theorem AllScreened.selectAccount (h : AllScreened T states after) (c : Chance)
    (o : SelectOptions) (ht : T t) : AllScreened T states (selectAccount c o t after).2 := by
  rw [selectAccount_states,AllScreened,List.forall₂_map_right_iff]
  exact h.imp fun s u hsu => hsu.step t ht

theorem AllScreened.preferringBudgetSafe (h : AllScreened T states after) (c : Chance)
    (o : SelectOptions) (pct : ℚ) {first second : ℚ} (hfirst : T first) (hsecond : T second) :
    AllScreened T states (selectAccountPreferringBudgetSafe c o pct first second after).2 := by
  unfold selectAccountPreferringBudgetSafe
  simp only []
  split_ifs
  · exact h.selectAccount _ _ hsecond
  · exact h.screenWhere _ hfirst
  · exact (h.screenWhere _ hfirst).selectAccount _ _ hsecond

namespace StickyCall
variable {q : StickyCall} {c : Chance} {t : StickyClock} {T : ℚ → Prop}
  {states after : List AccountState}

section
variable (hT : ∀ x ∈ t.screens, T x)
include hT

variable {sticky : StickyRows}

theorem screened_choose (h : AllScreened T states after) (persistFallback : Bool) :
    AllScreened T states (q.choose c t persistFallback after sticky).states := by
  have hr := h.preferringBudgetSafe c (q.options true false) q.budgetThresholdPct
    (hT t.chooseSafe (by simp [StickyClock.screens])) (hT t.chooseAll (by simp [StickyClock.screens]))
  unfold choose
  simp only []
  split <;> exact hr

theorem screened_fallBack (h : AllScreened T states after) (accountId : String)
    {reallocate : Bool} :
    AllScreened T states (q.fallBack c t accountId reallocate after sticky).states := by
  unfold fallBack
  split
  · exact screened_choose hT h _
  · simp only []
    split_ifs
    · exact h
    · exact screened_choose hT h _
    · exact screened_choose hT h _
    · exact screened_choose hT h _

theorem screened_underPressure (h : AllScreened T states after) (accountId : String) :
    AllScreened T states (q.underPressure c t accountId after sticky).states := by
  have hbest := h.preferringBudgetSafe c (q.options true true) q.budgetThresholdPct
    (hT t.probeSafe (by simp [StickyClock.screens])) (hT t.probeAll (by simp [StickyClock.screens]))
  have hpinned := hbest.screenWhere (fun s => s.accountId = accountId)
    (hT t.pinnedAgain (by simp [StickyClock.screens]))
  unfold underPressure
  simp only []
  split_ifs
  · exact hpinned
  · exact screened_fallBack hT hpinned _
  · exact screened_fallBack hT hbest _

theorem screened_withPinned (h : AllScreened T states after) (pinned : AccountState) :
    AllScreened T states (q.withPinned c t pinned after sticky).states := by
  have hpinned := h.screenWhere (fun s => s.accountId = pinned.accountId)
    (hT t.pinned (by simp [StickyClock.screens]))
  unfold withPinned
  simp only []
  split_ifs
  · exact screened_underPressure hT h _
  · exact screened_fallBack hT h _
  · exact hpinned
  · exact screened_fallBack hT hpinned _

theorem screened_selectWithStickiness (sticky : StickyRows) :
    AllScreened T states (q.selectWithStickiness c t states sticky).states := by
  have h := AllScreened.refl T states
  unfold selectWithStickiness
  simp only []
  split_ifs
  · exact h.preferringBudgetSafe _ _ _ (hT t.chooseSafe (by simp [StickyClock.screens]))
      (hT t.chooseAll (by simp [StickyClock.screens]))
  · split
    · exact screened_choose hT h _
    · split_ifs
      · exact screened_choose hT h _
      · split
        · exact screened_choose hT h _
        · exact screened_withPinned hT h _

end

end StickyCall

end CodexLb.LoadBalancer
