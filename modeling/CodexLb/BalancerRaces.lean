import CodexLb.BalancerSelection

/-!
# Failures recorded while a selection is under way

A selection builds its states from the runtime, chooses, and then writes the
states back one by one, each under the lock of its account. Marks and records
take the same locks and may run between the build and any of the writes. Both
paths of `select_account` write back without an expected version, so a write
puts the five fields of the state into the runtime whatever has happened to
them since the build.

A run starts right after the choice, which looks at the states alone. Its
events are the operations of other tasks, in any order and on any accounts,
and the writes of the selection. `mark_permanent_failure` and the persisting
of the rows are left out.
-/
namespace CodexLb.LoadBalancer
open Runs

inductive Op where
  | markRateLimit (account : Account) (error : UpstreamError) (now jitter : ℚ)
  | markQuotaExceeded (account : Account) (error : UpstreamError) (now : ℚ)
  | recordErrors (account : Account) (count : ℕ) (now : ℚ)
  | recordSuccess (account : Account)
  deriving DecidableEq, Repr

/-- A failure handler on the state of the account, written back at once. -/
def mark (env : Env) (account : Account) (handle : AccountState → AccountState)
    (runtime : RuntimeState) : RuntimeState :=
  (syncRuntimeState 0 account (handle (stateFor env account runtime)) false none runtime).2

def countErrors (count : ℕ) (now : ℚ) (s : AccountState) : AccountState :=
  {s with errorCount := s.errorCount+count,lastErrorAt := some now}

def resetProbeStreak (runtime : RuntimeState) : RuntimeState :=
  if runtime.healthTier = .probing then {runtime with probeSuccessStreak := 0} else runtime

def clearErrors (runtime : RuntimeState) : RuntimeState :=
  if 0 < runtime.errorCount then
    {runtime with errorCount := 0,lastErrorAt := none,version := runtime.version+1}
  else runtime

def countProbeSuccess (runtime : RuntimeState) : RuntimeState :=
  if runtime.healthTier = .probing then
    {runtime with
      probeSuccessStreak := runtime.probeSuccessStreak+1
      version := runtime.version+1}
  else runtime

def Op.run (env : Env) (runtimes : Runtimes) : Op → Runtimes
  | .markRateLimit a error now jitter =>
    runtimes.set a.id (mark env a (handleRateLimit env now jitter error) (runtimeOf runtimes a.id))
  | .markQuotaExceeded a error now =>
    runtimes.set a.id (mark env a (handleQuotaExceeded now error) (runtimeOf runtimes a.id))
  | .recordErrors a count now =>
    if count < 1 then runtimes
    else runtimes.set a.id
      (resetProbeStreak (mark env a (countErrors count now) (runtimeOf runtimes a.id)))
  | .recordSuccess a =>
    match runtimes.get? a.id with
    | none => runtimes
    | some r => runtimes.set a.id (countProbeSuccess (clearErrors r))

inductive Path where
  | plain (o : SelectOptions) (budgetThresholdPct first second : ℚ)
  | sticky (q : StickyCall) (t : StickyClock) (rows : StickyRows)

def Path.select (c : Chance) (states : List AccountState) :
    Path → SelectionResult × List AccountState
  | .plain o pct first second => selectAccountPreferringBudgetSafe c o pct first second states
  | .sticky q t rows =>
    let r := q.selectWithStickiness c t states rows
    (r.result,r.states)

structure PendingWrite where
  account : Account
  state : AccountState
  selected : Bool
  deriving DecidableEq, Repr

structure System where
  runtimes : Runtimes
  pending : List PendingWrite

inductive Event where
  | op (o : Op)
  | write (now : ℚ)
  deriving DecidableEq, Repr

/-- The states a selection has built and chosen from, before its first write. -/
def System.select (env : Env) (c : Chance) (path : Path) (now : ℚ) (pool : List Candidate)
    (runtimes : Runtimes) : System :=
  let built := buildStates env now pool runtimes
  let r := path.select c built.1
  ⟨built.2,List.zipWith (fun d s => ⟨d.account,s,r.1.account.any fun x => x.accountId = s.accountId⟩)
    pool r.2⟩

/-- `_sync_runtime_state_for_account`, called without an expected version. -/
def PendingWrite.sync (w : PendingWrite) (now : ℚ) (runtime : RuntimeState) : RuntimeState :=
  (syncRuntimeState now w.account w.state w.selected none runtime).2

def step (env : Env) (s : System) : Event → Option System
  | .op o => some ⟨o.run env s.runtimes,s.pending⟩
  | .write now =>
    match s.pending with
    | [] => none
    | w::rest => some ⟨s.runtimes.set w.account.id
        (w.sync now (runtimeOf s.runtimes w.account.id)),rest⟩

/-- Whatever has changed among the five fields since the build is there after the
write. -/
def Carries (built before after : RuntimeState) : Prop :=
  (before.resetAt ≠ built.resetAt → after.resetAt = before.resetAt) ∧
    (before.cooldownUntil ≠ built.cooldownUntil → after.cooldownUntil = before.cooldownUntil) ∧
    (before.blockedAt ≠ built.blockedAt → after.blockedAt = before.blockedAt) ∧
    (before.errorCount ≠ built.errorCount → after.errorCount = before.errorCount) ∧
    (before.lastErrorAt ≠ built.lastErrorAt → after.lastErrorAt = before.lastErrorAt)

instance (a b c : RuntimeState) : Decidable (Carries a b c) :=
  inferInstanceAs (Decidable (_ ∧ _ ∧ _ ∧ _ ∧ _))

variable {w : PendingWrite} {now : ℚ} {r : RuntimeState} {runtimes : Runtimes}

theorem runtimeOf_set {b : String} :
    runtimeOf (runtimes.set a r) b = if b = a then r else runtimeOf runtimes b := by
  rw [runtimeOf,Dict.get?_set]
  split_ifs <;> rfl

/-- How many errors an event adds to the count of an account. -/
def Event.failures (a : String) : Event → ℕ
  | .op (.markRateLimit b _ _ _) => if b.id = a then 1 else 0
  | .op (.recordErrors b n _) => if b.id = a then n else 0
  | .op (.markQuotaExceeded _ _ _) | .op (.recordSuccess _) | .write _ => 0

def Event.Succeeds (a : String) : Event → Prop
  | .op (.recordSuccess b) => b.id = a
  | _ => False

/-- No failure of the account: a success, or a record of no errors. -/
def Event.Idle (a : String) : Event → Prop
  | .op (.markRateLimit b _ _ _) | .op (.markQuotaExceeded b _ _) => b.id ≠ a
  | .op (.recordErrors b n _) => b.id = a → n = 0
  | .op (.recordSuccess _) | .write _ => True

/-- What an operation does to the runtime of one account. -/
def Op.effect (env : Env) (a : String) (r : RuntimeState) : Op → RuntimeState
  | .markRateLimit b error now jitter =>
    if b.id = a then mark env b (handleRateLimit env now jitter error) r else r
  | .markQuotaExceeded b error now =>
    if b.id = a then mark env b (handleQuotaExceeded now error) r else r
  | .recordErrors b n now =>
    if b.id = a ∧ 1 ≤ n then resetProbeStreak (mark env b (countErrors n now) r) else r
  | .recordSuccess b => if b.id = a then countProbeSuccess (clearErrors r) else r

def Event.effect (env : Env) (a : String) (r : RuntimeState) : Event → RuntimeState
  | .op o => o.effect env a r
  | .write _ => r

variable {a : String} {env : Env}

theorem Op.runtimeOf_run (o : Op) (runtimes : Runtimes) :
    runtimeOf (o.run env runtimes) a = o.effect env a (runtimeOf runtimes a) := by
  cases o with
  | markRateLimit b error now jitter | markQuotaExceeded b error now =>
    rw [Op.run,runtimeOf_set,Op.effect]
    by_cases hb : b.id = a
    · rw [if_pos hb.symm,if_pos hb,hb]
    · rw [if_neg (Ne.symm hb),if_neg hb]
  | recordErrors b n now =>
    rw [Op.run,Op.effect]
    by_cases hn : n < 1
    · rw [if_pos hn,if_neg (by omega)]
    · rw [if_neg hn,runtimeOf_set]
      by_cases hb : b.id = a
      · rw [if_pos hb.symm,if_pos ⟨hb,by omega⟩,hb]
      · rw [if_neg (Ne.symm hb),if_neg fun h => hb h.1]
  | recordSuccess b =>
    rw [Op.run,Op.effect]
    by_cases hb : b.id = a
    · subst hb
      rw [if_pos rfl]
      cases hr : runtimes.get? b.id with
      | none => simp [runtimeOf,hr,clearErrors,countProbeSuccess]
      | some r => simp [runtimeOf,hr,Dict.get?_set]
    · rw [if_neg hb]
      split
      · rfl
      · rw [runtimeOf_set,if_neg (Ne.symm hb)]

theorem Event.effect_errorCount {e : Event} (hs : ¬ e.Succeeds a) :
    (e.effect env a r).errorCount = r.errorCount+e.failures a := by
  have hstreak : ∀ r, (resetProbeStreak r).errorCount = r.errorCount := by
    intro r
    unfold resetProbeStreak
    split_ifs <;> rfl
  cases e with
  | write now => rfl
  | op o =>
    cases o with
    | markRateLimit b error now jitter | markQuotaExceeded b error now =>
      simp only [Event.effect,Op.effect,Event.failures]
      split_ifs <;> rfl
    | recordErrors b n now =>
      simp only [Event.effect,Op.effect,Event.failures]
      by_cases hb : b.id = a
      · by_cases hn : 1 ≤ n
        · rw [if_pos ⟨hb,hn⟩,if_pos hb,hstreak]
          rfl
        · rw [if_neg fun h => hn h.2,if_pos hb]
          omega
      · rw [if_neg fun h => hb h.1,if_neg hb,Nat.add_zero]
    | recordSuccess b =>
      have hb : b.id ≠ a := hs
      simp only [Event.effect,Op.effect,if_neg hb,Event.failures,Nat.add_zero]

/-- The five fields are as they were, or the errors are cleared. -/
structure Settles (r u : RuntimeState) : Prop where
  resetAt : u.resetAt = r.resetAt
  cooldownUntil : u.cooldownUntil = r.cooldownUntil
  blockedAt : u.blockedAt = r.blockedAt
  errors : u.errorCount = r.errorCount ∧ u.lastErrorAt = r.lastErrorAt ∨
    0 < r.errorCount ∧ u.errorCount = 0 ∧ u.lastErrorAt = none

theorem settles_refl (r : RuntimeState) : Settles r r := ⟨rfl,rfl,rfl,.inl ⟨rfl,rfl⟩⟩

theorem settles_success : Settles r (countProbeSuccess (clearErrors r)) := by
  unfold countProbeSuccess clearErrors
  split_ifs with hcount
  · exact ⟨rfl,rfl,rfl,.inr ⟨hcount,rfl,rfl⟩⟩
  · exact ⟨rfl,rfl,rfl,.inr ⟨hcount,rfl,rfl⟩⟩
  · exact ⟨rfl,rfl,rfl,.inl ⟨rfl,rfl⟩⟩
  · exact settles_refl r

theorem Settles.trans {u v : RuntimeState} (h : Settles r u) (k : Settles u v) : Settles r v := by
  refine ⟨k.resetAt.trans h.resetAt,k.cooldownUntil.trans h.cooldownUntil,
    k.blockedAt.trans h.blockedAt,?_⟩
  rcases h.errors with ⟨hcount,hlast⟩ | ⟨hpos,hcount,hlast⟩
  · rw [← hcount,← hlast]
    exact k.errors
  · rcases k.errors with ⟨kcount,klast⟩ | ⟨kpos,_⟩
    · exact .inr ⟨hpos,kcount.trans hcount,klast.trans hlast⟩
    · omega

theorem Event.effect_settles {e : Event} (h : e.Idle a) : Settles r (e.effect env a r) := by
  cases e with
  | write now => exact settles_refl r
  | op o =>
    cases o with
    | markRateLimit b error now jitter | markQuotaExceeded b error now =>
      have hb : b.id ≠ a := h
      simp only [Event.effect,Op.effect,if_neg hb]
      exact settles_refl r
    | recordErrors b n now =>
      have hn : ¬ (b.id = a ∧ 1 ≤ n) := by
        rintro ⟨hb,hn⟩
        have hzero : n = 0 := h hb
        omega
      simp only [Event.effect,Op.effect,if_neg hn]
      exact settles_refl r
    | recordSuccess b =>
      simp only [Event.effect,Op.effect]
      split_ifs
      · exact settles_success
      · exact settles_refl r

variable {s t : System}

theorem step_write (h : step env s (.write now) = some t) : ∃ w rest, s.pending = w::rest ∧
      t = ⟨s.runtimes.set w.account.id (w.sync now (runtimeOf s.runtimes w.account.id)),rest⟩ := by
  rw [step] at h
  split at h
  · cases h
  · rename_i w rest hp
    exact ⟨w,rest,hp,(Option.some.inj h).symm⟩

theorem step_pending {e : Event} (h : step env s e = some t) : t.pending <:+ s.pending := by
  cases e with
  | op o =>
    cases h
    exact List.suffix_rfl
  | write now =>
    obtain ⟨w,rest,hp,rfl⟩ := step_write h
    rw [hp]
    exact List.suffix_cons w rest

variable {evs : List Event}

theorem run_pending (h : Run (Steps (step env)) s evs t) : t.pending <:+ s.pending := by
  induction h with
  | done s => exact List.suffix_rfl
  | step hs _ ih => exact ih.trans (step_pending hs)

/-- Until its own write an account is changed by the operations on it alone. -/
theorem run_effect (h : Run (Steps (step env)) s evs t)
    (hnodup : (s.pending.map (·.account.id)).Nodup) (hw : a ∈ t.pending.map (·.account.id)) :
    runtimeOf t.runtimes a = evs.foldl (Event.effect env a) (runtimeOf s.runtimes a) := by
  induction h with
  | done s => rfl
  | step hstep hrun ih =>
    rename_i s u t e evs
    rw [ih (hnodup.sublist ((step_pending hstep).sublist.map _)) hw,List.foldl_cons]
    congr 1
    cases e with
    | op o =>
      cases hstep
      exact o.runtimeOf_run s.runtimes
    | write now =>
      obtain ⟨w,rest,hp,rfl⟩ := step_write hstep
      have hmem : a ∈ rest.map (·.account.id) := ((run_pending hrun).sublist.map _).subset hw
      rw [hp,List.map_cons,List.nodup_cons] at hnodup
      rw [runtimeOf_set,if_neg]
      · rfl
      · rintro rfl
        exact hnodup.1 hmem

theorem foldl_errorCount (hs : ∀ e ∈ evs, ¬ e.Succeeds a) :
    (evs.foldl (Event.effect env a) r).errorCount =
      r.errorCount+(evs.map (Event.failures a)).sum := by
  induction evs generalizing r with
  | nil => rfl
  | cons e evs ih =>
    rw [List.foldl_cons,ih fun e he => hs e (by simp [he]),
      Event.effect_errorCount (hs e (by simp)),List.map_cons,List.sum_cons,Nat.add_assoc]

theorem foldl_settles (h : ∀ e ∈ evs, e.Idle a) : Settles r (evs.foldl (Event.effect env a) r) := by
  induction evs generalizing r with
  | nil => exact settles_refl r
  | cons e evs ih =>
    exact (Event.effect_settles (h e (by simp))).trans (ih fun e he => h e (by simp [he]))

theorem screen_errorCount {t : ℚ} {s : AccountState} : (screen t s).2.errorCount ≤ s.errorCount := by
  have hcooldown : ∀ s, (clearCooldown t s).errorCount ≤ s.errorCount := by
    intro s
    unfold clearCooldown
    split_ifs
    · exact Nat.zero_le _
    · exact le_rfl
  have herrors : ∀ s, (screenErrors t s).2.errorCount ≤ s.errorCount := by
    intro s
    unfold screenErrors
    split_ifs
    · exact le_rfl
    · exact le_rfl
    · exact Nat.zero_le _
    · exact le_rfl
  unfold screen
  split
  · exact le_rfl
  · exact le_rfl
  · split_ifs
    · exact ((herrors _).trans (hcooldown _)).trans (Nat.zero_le _)
    · exact le_rfl
  · split_ifs
    · exact (herrors _).trans (hcooldown _)
    · exact le_rfl
  · exact (herrors _).trans (hcooldown _)

theorem Screened.errorCount_le {T : ℚ → Prop} {s u : AccountState} (h : Screened T s u) :
    u.errorCount ≤ s.errorCount := by
  induction h with
  | refl => exact le_rfl
  | step t ht h ih => exact (screen_errorCount).trans ih

theorem Path.select_screened (c : Chance) (path : Path) (states : List AccountState) :
    AllScreened (fun _ => True) states (path.select c states).2 := by
  cases path with
  | plain o pct first second =>
    exact (AllScreened.refl _ states).preferringBudgetSafe c o pct trivial trivial
  | sticky q t rows => exact StickyCall.screened_selectWithStickiness (fun _ _ => trivial) rows

theorem nextHealth_errorCount {s : AccountState} :
    (nextHealth env now s r).errorCount = r.errorCount := by
  unfold nextHealth
  simp only []
  split_ifs <;> rfl

variable {pool : List Candidate}

theorem buildStates_other (h : a ∉ pool.map (·.account.id)) :
    runtimeOf (buildStates env now pool runtimes).2 a = runtimeOf runtimes a := by
  induction pool generalizing runtimes with
  | nil => rfl
  | cons d pool ih =>
    simp only [List.map_cons,List.mem_cons,not_or] at h
    rw [buildStates]
    rw [ih h.2,runtimeOf_set,if_neg h.1]

theorem buildStates_errorCount (env : Env) (now : ℚ) (hnodup : (pool.map (·.account.id)).Nodup)
    (runtimes : Runtimes) :
    List.Forall₂ (fun (d : Candidate) s => s.errorCount =
      (runtimeOf (buildStates env now pool runtimes).2 d.account.id).errorCount)
      pool (buildStates env now pool runtimes).1 := by
  induction pool generalizing runtimes with
  | nil => exact .nil
  | cons d pool ih =>
    simp only [List.map_cons,List.nodup_cons] at hnodup
    rw [buildStates]
    refine .cons ?_ (ih hnodup.2 _)
    rw [buildStates_other hnodup.1,runtimeOf_set,if_pos rfl]
    exact (nextHealth_errorCount).symm

section Start
variable {env : Env} {c : Chance} {path : Path} {now : ℚ} {pool : List Candidate}
  {runtimes : Runtimes}

theorem forall₂_comp {A B C : Type*} {R : A → B → Prop} {S : B → C → Prop} {l : List A} {m : List B}
    {n : List C} (h : List.Forall₂ R l m) (hs : List.Forall₂ S m n) :
    List.Forall₂ (fun a c => ∃ b, R a b ∧ S b c) l n := by
  induction h generalizing n with
  | nil =>
    cases hs
    exact .nil
  | cons hr _ ih =>
    cases hs with
    | cons hsu hrest => exact .cons ⟨_,hr,hsu⟩ (ih hrest)

theorem select_pending {f : Candidate → AccountState → PendingWrite}
    (hf : ∀ d s, (f d s).account = d.account ∧ (f d s).state = s)
    {R : Candidate → AccountState → Prop} {states : List AccountState}
    (h : List.Forall₂ R pool states) :
    (List.zipWith f pool states).map (·.account.id) = pool.map (·.account.id) ∧
      ∀ w ∈ List.zipWith f pool states, ∃ d ∈ pool, w.account = d.account ∧ R d w.state := by
  induction h with
  | nil => exact ⟨rfl,by simp⟩
  | @cons d s pool states hr _ ih =>
    obtain ⟨hids,hall⟩ := ih
    constructor
    · rw [List.zipWith_cons_cons,List.map_cons,List.map_cons,hids,(hf d s).1]
    · intro w hw
      rw [List.zipWith_cons_cons,List.mem_cons] at hw
      rcases hw with rfl | hw
      · exact ⟨d,by simp,(hf d s).1,by rw [(hf d s).2]; exact hr⟩
      · obtain ⟨e,he,h1,h2⟩ := hall w hw
        exact ⟨e,List.mem_cons_of_mem _ he,h1,h2⟩

/-- The writes of a selection are on the accounts of the pool, in order, and
no state counts more errors than the runtime did at the build. -/
theorem select_writes (hnodup : (pool.map (·.account.id)).Nodup) :
    ((System.select env c path now pool runtimes).pending.map (·.account.id)).Nodup ∧
      ∀ w ∈ (System.select env c path now pool runtimes).pending, w.state.errorCount ≤
        (runtimeOf (System.select env c path now pool runtimes).runtimes w.account.id).errorCount := by
  have hbuilt := buildStates_errorCount env now hnodup runtimes
  have hscreen := path.select_screened c (buildStates env now pool runtimes).1
  obtain ⟨hids,hall⟩ := select_pending (f := fun d s => ⟨d.account,s,
    (path.select c (buildStates env now pool runtimes).1).1.account.any
      fun x => x.accountId = s.accountId⟩) (fun _ _ => ⟨rfl,rfl⟩)
    (forall₂_comp hbuilt hscreen)
  refine ⟨?_,?_⟩
  · rw [← hids] at hnodup
    exact hnodup
  · intro w hw
    obtain ⟨d,_,hd,s,hs,hscreened⟩ := hall w hw
    rw [hd]
    exact hscreened.errorCount_le.trans hs.le

end Start

def sampleEnv : Env where
  settings := ⟨60,true,85,90,60,2,60,3⟩
  capacityForPlan := fun _ => some 7560
  parseRetryAfter := fun _ => none

def sampleChance : Chance where
  fallbackCapacityCredits := fun _ => 1134
  draw := fun _ => 0
  draw_lt := fun _ h => List.length_pos_iff.mpr h

def activeAccount : Account := ⟨"a",.active,none,none,none,"plus"⟩

def plainPath : Path := .plain ⟨false,.usageWeighted,true,false,false⟩ 95 1000 1000

def erredRuntimes : Runtimes := Dict.empty.set "a" {errorCount := 3,lastErrorAt := some 1}

def erredSelection : System :=
  System.select sampleEnv sampleChance plainPath 1000 [⟨activeAccount,none,none⟩] erredRuntimes

def erredSuccess : System :=
  ⟨(Op.recordSuccess activeAccount).run sampleEnv erredSelection.runtimes,erredSelection.pending⟩

def cleanWrite : PendingWrite where
  account := activeAccount
  state := ⟨"a",.active,none,none,none,none,none,none,none,none,0,none,some "plus",some 7560,.healthy⟩
  selected := true

theorem write_single (h : s.pending = [w]) : step env s (.write now) =
      some ⟨s.runtimes.set w.account.id (w.sync now (runtimeOf s.runtimes w.account.id)),[]⟩ := by
  rw [step,h]

def freshSelection : System :=
  System.select sampleEnv sampleChance plainPath 1000 [⟨activeAccount,none,none⟩] Dict.empty

def limitMark : Op := .markRateLimit activeAccount ⟨none,some 5000,none⟩ 1001 1

def markedSelection : System := ⟨limitMark.run sampleEnv freshSelection.runtimes,freshSelection.pending⟩

end CodexLb.LoadBalancer
