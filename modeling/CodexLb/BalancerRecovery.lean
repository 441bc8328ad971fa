import CodexLb.BalancerDecision
import CodexLb.BalancerRounds

/-!
# When a block ends

A mark blocks an account until a reset time. The usage rules lift a block only when
they see a usage row, and `select_account` lifts one only when its reset time is set,
not zero and over. With all usage rows under 100 percent the reset time in the row of
the account stays as it is until the block ends, through selections and restarts. So
the block of a mark with a reset time ends, and once the cooldown and the error backoff
are over as well, the account is eligible. A mark without one leaves an account that
has no usage rows blocked at every later time.
-/
namespace CodexLb.LoadBalancer
open TokenRefresh (AccountStatus)
open Runs

def Failure.status : Failure → AccountStatus
  | .rateLimit _ => .rateLimited
  | .quotaExceeded => .quotaExceeded

/-- The reset time of a mark, in whole seconds: a rate limit without one keeps the one
of the runtime, a quota block is given an hour. -/
def Failure.resetTime (now : ℚ) (error : UpstreamError) (runtime : RuntimeState) :
    Failure → Option ℤ
  | .rateLimit _ => (extractResetAt now error).or (runtime.resetAt.map truncate)
  | .quotaExceeded => some ((extractResetAt now error).getD (truncate (now+3600)))

/-- Every usage row that the build sees is under 100 percent. -/
def Build.below (x : Build) : Bool :=
  (x.primary.all fun e => decide (e.usedPercent < 100)) &&
    x.secondary.all fun e => decide (e.usedPercent < 100)

def Move.below : Move → Bool
  | .build x => x.below
  | .select _ _ _ _ _ | .write _ _ | .restart _ => true

/-- From some time on every selection finds the account available. -/
def Recovers (env : Env) (s : Standing) : Prop :=
  ∃ T : ℚ, ∀ moves t,
    Run (restrict (Steps (Standing.step env)) fun _ m => m.below = true) s moves t →
    ∀ x : Build, x.below = true → T ≤ x.now → t.now ≤ x.now → ∀ now, x.now ≤ now →
      (screen now (x.stateAndRuntime env t.row t.runtime).1).1 = .available

/-- The usage of the window that the status belongs to. -/
def QuotaInput.window (q : QuotaInput) : Option ℚ :=
  match q.status with
  | .quotaExceeded => q.secondaryUsed
  | .rateLimited => q.primaryUsed
  | .active | .paused | .deactivated => none

section
variable {now : ℚ} {q : QuotaInput}

theorem applyPrimaryQuota_active (h : ∀ u, q.primaryUsed = some u → u < 100) {reset : Option ℚ} :
    (applyPrimaryQuota now q .active reset).1 = .active := by
  unfold applyPrimaryQuota
  cases hu : q.primaryUsed with
  | none => rfl
  | some u => simp [not_le.mpr (h u hu)]

theorem applyPrimaryQuota_limited (h : ∀ u, q.primaryUsed = some u → u < 100) :
    (applyPrimaryQuota now q .rateLimited q.runtimeReset).1 = .active ∨
    (applyPrimaryQuota now q .rateLimited q.runtimeReset).1 = .rateLimited ∧
      (applyPrimaryQuota now q .rateLimited q.runtimeReset).2.2 = q.runtimeReset ∧
      (q.primaryUsed.isSome = true → ahead now q.runtimeReset = true) := by
  unfold applyPrimaryQuota
  cases hu : q.primaryUsed with
  | none => simp
  | some u =>
    cases ha : ahead now q.runtimeReset <;> simp [not_le.mpr (h u hu)]

/-- Usage under 100 percent ends a block or leaves it as it is, with a reset time ahead
if its window was seen. -/
theorem applyUsageQuota_below (hprimary : ∀ u, q.primaryUsed = some u → u < 100)
    (hsecondary : ∀ u, q.secondaryUsed = some u → u < 100)
    (hnone : q.secondaryUsed = none → q.secondaryReset = none)
    (hstatus : q.status = .active ∨ q.status = .rateLimited ∨ q.status = .quotaExceeded) :
    (applyUsageQuota now q).1 = .active ∨
    (applyUsageQuota now q).1 = q.status ∧ (applyUsageQuota now q).2.2 = q.runtimeReset ∧
      (q.window.isSome = true → ahead now q.runtimeReset = true) := by
  unfold applyUsageQuota QuotaInput.window
  rcases hstatus with hs | hs | hs
  · refine .inl ?_
    cases hu : q.secondaryUsed with
    | none => simpa [hs] using applyPrimaryQuota_active hprimary
    | some u => simpa [hs,not_le.mpr (hsecondary u hu)] using applyPrimaryQuota_active hprimary
  · cases hu : q.secondaryUsed with
    | none => simpa [hs] using applyPrimaryQuota_limited hprimary
    | some u => simpa [hs,not_le.mpr (hsecondary u hu)] using applyPrimaryQuota_limited hprimary
  · obtain ⟨hkept,hreset⟩ := applyPrimaryQuota_quota now hprimary q.runtimeReset
    cases hu : q.secondaryUsed with
    | none => simp [hs,hnone hu,hkept,hreset]
    | some u =>
      cases ha : ahead now q.runtimeReset with
      | false =>
        simpa [hs,not_le.mpr (hsecondary u hu)] using applyPrimaryQuota_active hprimary
      | true => simp [hs,not_le.mpr (hsecondary u hu),hkept,hreset]

end

variable {row : Account} {runtime : RuntimeState}

/-- The reset time of the row is used unless a row of the window takes it away. -/
theorem effectiveReset_cases {env : Env} {now : ℚ} {primary secondary : Option UsageEntry} :
    effectiveReset env now row primary secondary runtime = storedReset row runtime ∨
    effectiveReset env now row primary secondary runtime = none ∧
      (freshnessEntry row primary secondary).isSome = true := by
  have hlift : liftUnmarkedQuota env now row (effectiveBlockedAt row runtime) secondary
      (storedReset row runtime) = storedReset row runtime ∨
      liftUnmarkedQuota env now row (effectiveBlockedAt row runtime) secondary
        (storedReset row runtime) = none ∧ (freshnessEntry row primary secondary).isSome = true := by
    unfold liftUnmarkedQuota
    split
    · split_ifs with h
      · exact .inr ⟨rfl,by simp [freshnessEntry,h.1]⟩
      · exact .inl rfl
    · exact .inl rfl
  unfold effectiveReset
  simp only []
  split
  · rename_i hfresh
    split_ifs
    · exact .inr ⟨rfl,by simp [hfresh]⟩
    · exact hlift
  · exact hlift

section
variable {env : Env} {x : Build} {row : Account} {runtime : RuntimeState}

theorem Build.quotaEntry_below (h : x.below = true) {e : UsageEntry} (he : x.quotaEntry = some e) :
    e.usedPercent < 100 := by
  simp only [below,Bool.and_eq_true,Option.all_eq_true,decide_eq_true_eq] at h
  unfold quotaEntry at he
  split_ifs at he
  · exact h.1 e he
  · exact h.2 e he

theorem built_below (h : x.below = true)
    (hstatus : row.status = .active ∨ row.status = .rateLimited ∨ row.status = .quotaExceeded) :
    (x.stateAndRuntime env row runtime).1.status = .active ∨
    (x.stateAndRuntime env row runtime).1.status = row.status ∧
      (x.stateAndRuntime env row runtime).1.resetAt = storedReset row runtime := by
  have hprimary : ∀ u, (x.input env row runtime).primaryUsed = some u → u < 100 := by
    intro u hu
    obtain ⟨p,hp,rfl⟩ := Option.map_eq_some_iff.mp hu
    simp only [Build.below,Bool.and_eq_true,Option.all_eq_true,decide_eq_true_eq] at h
    exact h.1 p hp
  have hsecondary : ∀ u, (x.input env row runtime).secondaryUsed = some u → u < 100 := by
    intro u hu
    obtain ⟨e,he,rfl⟩ := Option.map_eq_some_iff.mp hu
    exact Build.quotaEntry_below h he
  rcases applyUsageQuota_below hprimary hsecondary (input_secondary _ _ _ _) hstatus
    with hactive | ⟨hkept,hreset,hahead⟩
  · exact .inl hactive
  rcases effectiveReset_cases with
    hstored | ⟨hcleared,hfresh⟩
  · exact .inr ⟨hkept,hreset.trans hstored⟩
  · have hwindow : (x.input env row runtime).window.isSome = true := by
      rcases hstatus with hs | hs | hs
      · simp [freshnessEntry,hs] at hfresh
      · simpa [QuotaInput.window,Build.input,freshnessEntry,hs] using hfresh
      · simpa [QuotaInput.window,Build.input,freshnessEntry,hs] using hfresh
    have hnone : (x.input env row runtime).runtimeReset = none := hcleared
    have hnot := hahead hwindow
    rw [hnone] at hnot
    cases hnot

end

/-- The cooldown and the longest error backoff are over by `T`. -/
structure Within (T : ℚ) (cooldownUntil lastErrorAt : Option ℚ) : Prop where
  cooldown : ∀ t, cooldownUntil = some t → t ≤ T
  error : ∀ t, lastErrorAt = some t → t+300 ≤ T

variable {T : ℚ}

theorem within_none : Within T none none where
  cooldown _ h := by cases h
  error _ h := by cases h

theorem Within.screen {a : AccountState} (h : Within T a.cooldownUntil a.lastErrorAt) (now : ℚ) :
    Within T (screen now a).2.cooldownUntil (screen now a).2.lastErrorAt := by
  have hclear : ∀ a : AccountState, Within T a.cooldownUntil a.lastErrorAt →
      Within T (clearCooldown now a).cooldownUntil (clearCooldown now a).lastErrorAt := by
    intro a ha
    unfold clearCooldown
    split_ifs
    · exact within_none
    · exact ha
  have herrors : ∀ a : AccountState, Within T a.cooldownUntil a.lastErrorAt →
      Within T (screenErrors now a).2.cooldownUntil (screenErrors now a).2.lastErrorAt := by
    intro a ha
    unfold screenErrors
    split_ifs
    · exact ha
    · exact ha
    · exact ⟨ha.cooldown,(within_none).error⟩
    · exact ha
  unfold LoadBalancer.screen
  split
  · exact h
  · exact h
  · split_ifs
    · exact herrors _ (hclear _ h)
    · exact h
  · split_ifs
    · exact herrors _ (hclear _ h)
    · exact h
  · exact herrors _ (hclear _ h)

structure Ending (f : Failure) (z : ℤ) (T : ℚ) (a : AccountState) : Prop where
  status : a.status = .active ∨ a.status = f.status ∧ a.resetAt = some (z : ℚ)
  within : Within T a.cooldownUntil a.lastErrorAt

section
variable {env : Env} {f : Failure} {z : ℤ} {T : ℚ}

theorem Failure.status_cases (f : Failure) : f.status = .rateLimited ∨ f.status = .quotaExceeded := by
  cases f
  · exact .inl rfl
  · exact .inr rfl

variable {a : AccountState}

theorem Ending.screen (h : Ending f z T a) (now : ℚ) : Ending f z T (screen now a).2 := by
  refine ⟨?_,h.within.screen now⟩
  rcases h.status with hactive | ⟨hstatus,hreset⟩
  · left
    simp [LoadBalancer.screen,hactive,clearCooldown_status]
  · by_cases hover : reached now a.resetAt = true
    · left
      rcases f.status_cases with hf | hf <;>
        simp [LoadBalancer.screen,hstatus,hf,hover,clearCooldown_status]
    · right
      rw [screen_of_not_reached (hstatus ▸ f.status_cases) (Bool.eq_false_iff.mpr hover)]
      exact ⟨hstatus,hreset⟩

theorem Ending.available (h : Ending f z T a) (hz : z ≠ 0) (hzT : (z : ℚ) ≤ T) {now : ℚ}
    (hnow : T ≤ now) : (LoadBalancer.screen now a).1 = .available := by
  have hlimit : limitOver now a = true := by
    rcases h.status with hactive | ⟨hstatus,hreset⟩
    · simp [limitOver,hactive]
    · have hover : reached now a.resetAt = true := by simp [reached,hreset,hz,hzT.trans hnow]
      rcases f.status_cases with hf | hf <;> simp [limitOver,hstatus,hf,hover]
  have hcooldown : ahead now a.cooldownUntil = false := by
    cases hc : a.cooldownUntil with
    | none => rfl
    | some t => simp [ahead,(h.within.cooldown t hc).trans hnow]
  have herrors : backingOff now a = false := by
    cases he : a.lastErrorAt with
    | none => simp [backingOff,he]
    | some t =>
      have hmax : errorBackoff a.errorCount ≤ 300 := min_le_left _ _
      have hover := (h.within.error t he).trans hnow
      have hlate : errorBackoff a.errorCount ≤ now-t := by linarith
      simp [backingOff,he,hlate]
  rw [verdict_available,eligible,hlimit,hcooldown,inErrorBackoff,herrors]
  simp

structure Recovering (f : Failure) (z : ℤ) (T : ℚ) (s : Standing) : Prop where
  row : s.row.status = .active ∨ s.row.status = f.status ∧ s.row.resetAt = some z
  runtime : Within T s.runtime.cooldownUntil s.runtime.lastErrorAt
  state : ∀ a, s.state = some a → Ending f z T a

variable {s : Standing}

theorem Recovering.built (h : Recovering f z T s) (hz : z ≠ 0) {x : Build} (hx : x.below = true) :
    Ending f z T (x.stateAndRuntime env s.row s.runtime).1 := by
  refine ⟨?_,h.runtime⟩
  rcases h.row with hactive | ⟨hstatus,hreset⟩
  · rcases built_below hx (.inl hactive) with hs | ⟨hs,_⟩
    · exact .inl hs
    · exact .inl (hs.trans hactive)
  · have hblocked : s.row.status = .rateLimited ∨ s.row.status = .quotaExceeded :=
      hstatus ▸ f.status_cases
    rcases built_below hx (.inr hblocked) with hs | ⟨hs,hr⟩
    · exact .inl hs
    · refine .inr ⟨hs.trans hstatus,hr.trans ?_⟩
      simp [storedReset,hreset,hz]

theorem nextHealth_times (now : ℚ) (a : AccountState) (r : RuntimeState) :
    (nextHealth env now a r).cooldownUntil = r.cooldownUntil ∧
      (nextHealth env now a r).lastErrorAt = r.lastErrorAt := by
  unfold nextHealth
  simp only []
  split_ifs <;> exact ⟨rfl,rfl⟩

theorem recovering_step (hz : z ≠ 0) {t : Standing} {m : Move} (h : Recovering f z T s)
    (hm : m.below = true) (hstep : s.step env m = some t) : Recovering f z T t := by
  obtain ⟨_,_,hcases⟩ := Standing.step_cases hstep
  rcases hcases with ⟨x,rfl,hrow,_,hruntime,hstate⟩ | ⟨a,ha,hrow,hruntime,_,hstate⟩ |
    ⟨a,selected,ha,hrow,_,hstate,hruntime⟩ | ⟨hrow,hruntime,_,hstate⟩
  · obtain ⟨hcooldown,herror⟩ := @nextHealth_times env x.now
      {(x.stateAndRuntime env s.row s.runtime).1 with healthTier := s.runtime.healthTier} s.runtime
    refine ⟨hrow ▸ h.row,?_,fun a ha => ?_⟩
    · rw [hruntime]
      exact ⟨hcooldown ▸ h.runtime.cooldown,herror ▸ h.runtime.error⟩
    · cases hstate.symm.trans ha
      exact h.built hz hm
  · refine ⟨hrow ▸ h.row,hruntime ▸ h.runtime,fun u hu => ?_⟩
    cases hstate.symm.trans hu
    exact (h.state a ha).screen _
  · obtain ⟨hstatus,hreset,_⟩ := hrow
    refine ⟨?_,hruntime ▸ (h.state a ha).within,fun u hu => ?_⟩
    · rcases (h.state a ha).status with hactive | ⟨hs,hr⟩
      · exact .inl (hstatus.trans hactive)
      · exact .inr ⟨hstatus.trans hs,by rw [hreset,hr,storedTime_intCast hz]⟩
    · cases hstate.symm.trans hu
  · refine ⟨hrow ▸ h.row,hruntime ▸ within_none,fun u hu => ?_⟩
    cases hstate.symm.trans hu

end

section
variable (env : Env) (b : ℚ) (error : UpstreamError) (account : Account) (runtime : RuntimeState)
  (f : Failure)

variable {z : ℤ}

theorem storedTime_eq_some {t : Option ℚ} (hz : z ≠ 0) :
    storedTime t = some z ↔ t.map truncate = some z := by
  cases t with
  | none => simp [storedTime]
  | some x =>
    have hzero : truncate 0 ≠ z := by
      exact hz.symm
    by_cases hx : x = 0
    · simp [storedTime,hx,hzero]
    · simp [storedTime,hx]

theorem marked_resetAt : ((f.handle env b error (stateFor env account runtime)).resetAt).map truncate =
    f.resetTime b error runtime := by
  cases f with
  | rateLimit jitter =>
    simp only [Failure.handle,handleRateLimit,Failure.resetTime]
    cases extractResetAt b error with
    | none => rfl
    | some t => simp [truncate_intCast]
  | quotaExceeded =>
    simp [Failure.handle,handleQuotaExceeded,Failure.resetTime,truncate_intCast]

theorem marked_row_status :
    (Standing.marked env b error account runtime f).row.status = f.status := by
  cases f <;> rfl

theorem marked_row_resetAt (hz : z ≠ 0) :
    (Standing.marked env b error account runtime f).row.resetAt = some z ↔
      f.resetTime b error runtime = some z := by
  rw [← marked_resetAt env b error account runtime f]
  exact storedTime_eq_some hz

end

theorem blocked_without_reset (env : Env) {f : Failure} (hstatus : row.status = f.status)
    (hreset : ∀ z, z ≠ 0 → row.resetAt ≠ some z) (hruntime : runtime.resetAt = none) (now : ℚ) :
    (screen now ((⟨now,none,none⟩ : Build).stateAndRuntime env row runtime).1).1 = .blocked := by
  have hstored : storedReset row runtime = none := by
    unfold storedReset
    split
    · rename_i z hz
      rw [if_pos (by_contra fun hne => hreset z hne hz),hruntime]
    · exact hruntime
  have heffective : effectiveReset env now row none none runtime = none := by
    rcases effectiveReset_cases with h | h
    · exact h.trans hstored
    · exact h.1
  have hquota : Build.quotaEntry ⟨now,none,none⟩ = none := rfl
  have happly : applyUsageQuota now ((⟨now,none,none⟩ : Build).input env row runtime) =
      (f.status,none,none) := by
    rcases f.status_cases with hf | hf <;>
      simp [applyUsageQuota,applyPrimaryQuota,Build.input,hquota,heffective,hstatus,hf]
  have hs := built_status env ⟨now,none,none⟩ row runtime
  have hr := built_resetAt env ⟨now,none,none⟩ row runtime
  rw [happly] at hs hr
  rcases f.status_cases with hf | hf <;> simp [screen,hs,hf,hr,reached]

def recoveryTime (s : Standing) (z : ℤ) : ℚ :=
  max z (max (s.runtime.cooldownUntil.getD 0) ((s.runtime.lastErrorAt.map (·+300)).getD 0))

/-- A marked account recovers exactly if the mark has left a reset time that is not
zero. -/
theorem recovers_iff (env : Env) (b : ℚ) (error : UpstreamError) (account : Account)
    (runtime : RuntimeState) (f : Failure) :
    Recovers env (.marked env b error account runtime f) ↔
      (f.resetTime b error runtime).any (· ≠ 0) = true := by
  constructor
  · rintro ⟨T,hT⟩
    by_contra hnone
    have hreset : ∀ z, z ≠ 0 →
        (Standing.marked env b error account runtime f).row.resetAt ≠ some z := by
      intro z hz h
      rw [marked_row_resetAt _ _ _ _ _ _ hz] at h
      simp [h,hz] at hnone
    have hblocked := blocked_without_reset env (marked_row_status env b error account runtime f)
      hreset (show ({} : RuntimeState).resetAt = none from rfl) (max T b)
    have hrun : Run (restrict (Steps (Standing.step env)) fun _ m => m.below = true)
        (.marked env b error account runtime f) [.restart b]
        {Standing.marked env b error account runtime f with runtime := {}} := by
      refine .single ⟨rfl,?_⟩
      simp [Steps,Standing.step,Standing.move,Move.now,Standing.marked]
    have havailable := hT _ _ hrun ⟨max T b,none,none⟩ rfl (le_max_left _ _) (le_max_right _ _) _ le_rfl
    rw [hblocked] at havailable
    cases havailable
  · intro h
    obtain ⟨z,hreset,hz⟩ := (Option.any_eq_true _ _).mp h
    simp only [ne_eq,decide_eq_true_eq] at hz
    let s := Standing.marked env b error account runtime f
    refine ⟨recoveryTime s z,fun moves t hrun x hx hT _ now hnow => ?_⟩
    have hstart : Recovering f z (recoveryTime s z) s := by
      refine ⟨.inr ⟨marked_row_status _ _ _ _ _ _,(marked_row_resetAt _ _ _ _ _ _ hz).mpr hreset⟩,
        ⟨fun c hc => ?_,fun e he => ?_⟩,fun a ha => by cases ha⟩
      · simp [recoveryTime,hc]
      · simp [recoveryTime,he]
    have ht : Recovering f z (recoveryTime s z) t :=
      hrun.invariant (I := Recovering f z (recoveryTime s z))
        (fun _ _ _ hs hstep => recovering_step hz hs hstep.1 hstep.2) hstart
    exact (ht.built hz hx).available hz (le_max_left _ _) (hT.trans hnow)

/-- A rate limit without a reset time on an account without usage rows: blocked at
every later time. And a mark with one, after which a full row of the quota window that
ends at 1000000 was seen before the rows went away. -/
theorem limits_without_end :
    (∀ now, (screen now ((⟨now,none,none⟩ : Build).stateAndRuntime sampleEnv
      (Standing.marked sampleEnv 1000 ⟨none,none,none⟩ activeAccount {} (.rateLimit 1)).row
      (Standing.marked sampleEnv 1000 ⟨none,none,none⟩ activeAccount {} (.rateLimit 1)).runtime).1).1 =
        .blocked) ∧
    ∃ s, Run (Steps (Standing.step sampleEnv))
      (.marked sampleEnv 1000 ⟨none,some 2000,none⟩ activeAccount {} .quotaExceeded)
      (aloneAt 1200 none (some ⟨100,some 1000000,some 10080,1190⟩)) s ∧
      (screen 999999 ((⟨999999,none,none⟩ : Build).stateAndRuntime sampleEnv s.row s.runtime).1).1 =
        .blocked := by
  refine ⟨fun now => ?_,?_⟩
  · refine blocked_without_reset sampleEnv (f := .rateLimit 1) rfl (fun z _ h => ?_) rfl now
    cases h
  · exact exists_steps_of_exec (by decide +kernel)

end CodexLb.LoadBalancer
