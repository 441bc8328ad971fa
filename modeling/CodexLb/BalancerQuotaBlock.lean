import CodexLb.BalancerRounds

/-!
# How long a quota block holds

An account marked by `mark_quota_exceeded` may become active again once the reset
time of the mark is over, once the reset time of a row of the quota window seen so
far is over, or after a build, two minutes after the mark or later, that saw such a
row recorded after the mark and under 100 percent.

The rules of the primary window override this. A primary row at 100 percent turns
the block into a rate limit with the reset time of that row. The other two gaps are
a full quota row without a reset time, which takes the reset time out of the row of
the account, and the block time, which is persisted in whole seconds.
-/
namespace CodexLb.LoadBalancer
open TokenRefresh (AccountStatus)
open Runs

def quotaReset (b : ℚ) (error : UpstreamError) : ℤ :=
  (extractResetAt b error).getD (truncate (b+3600))

namespace Build
variable (b : ℚ) (x : Build)

/-- The window of the quota row that was seen has ended by `t`. -/
def windowOver (t : ℚ) : Bool :=
  x.quotaEntry.any fun e => e.resetAt.any fun (u : ℤ) => decide ((u : ℚ) ≤ t)

/-- The build saw a quota row recorded after the block and under 100 percent. -/
def refreshed : Bool := decide (b+quotaExceededCooldownSeconds ≤ x.now) &&
  x.quotaEntry.any fun e => decide (b < e.recordedAt) && decide (e.usedPercent < 100)

/-- The build takes the row for newer than the block, which it knows in whole
seconds. -/
def takenForNewer (e : UsageEntry) : Bool :=
  decide ((truncate b : ℚ)+quotaExceededCooldownSeconds ≤ x.now) &&
    decide ((truncate b : ℚ) < e.recordedAt)

/-- A full primary window comes with a full quota window, a full quota row that
counts as newer has a reset time, and one under 100 percent is newer. -/
def steady : Bool :=
  (x.primary.all fun p => decide (p.usedPercent < 100) ||
    x.quotaEntry.any fun e => decide (100 ≤ e.usedPercent)) &&
  x.quotaEntry.all fun e => !x.takenForNewer b e ||
    if 100 ≤ e.usedPercent then e.resetAt.isSome else x.refreshed b

end Build

/-- The times at which a block from `b` until `r` may be lifted. -/
def Permitted (b r : ℚ) (builds : List Build) (t : ℚ) : Prop :=
  r ≤ t ∨ ∃ x ∈ builds, x.now ≤ t ∧ (x.windowOver t = true ∨ x.refreshed b = true)

instance (b r : ℚ) (builds : List Build) (t : ℚ) : Decidable (Permitted b r builds t) :=
  inferInstanceAs (Decidable (_ ∨ _))

def SteadyMove (b : ℚ) (s : Standing) : Move → Prop
  | .build x => s.row.status = .quotaExceeded → x.steady b = true
  | .select _ _ _ _ _ | .write _ _ | .restart _ => True

instance (b : ℚ) (s : Standing) (m : Move) : Decidable (SteadyMove b s m) :=
  match m with
  | .build _ => inferInstanceAs (Decidable (_ → _))
  | .select _ _ _ _ _ | .write _ _ | .restart _ => inferInstanceAs (Decidable True)

section
variable {env : Env} {b : ℚ} {x : Build} {row : Account} {runtime : RuntimeState} {r : ℤ}

theorem quota_effectiveReset (hstatus : row.status = .quotaExceeded)
    (hblocked : row.blockedAt = some (truncate b)) (hreset : row.resetAt = some r) (hr : r ≠ 0) :
    effectiveReset env x.now row x.primary x.quotaEntry runtime =
      if x.quotaEntry.any (x.takenForNewer b) then none else some (r : ℚ) := by
  have hlift (e : Option UsageEntry) : liftUnmarkedQuota env x.now row
      (some (truncate b : ℚ)) e (some (r : ℚ)) = some (r : ℚ) := by
    cases e <;> simp [liftUnmarkedQuota]
  unfold effectiveReset
  simp only [effectiveBlockedAt,hblocked,storedReset,hreset,if_neg hr,hlift,freshnessEntry,hstatus,
    cooldownReady,if_true,Option.any_some]
  cases x.quotaEntry with
  | none => rfl
  | some e =>
    simp only [Option.any_some,Build.takenForNewer,Bool.and_eq_true,decide_eq_true_eq]

/-- What the usage rules make of a quota block when a full primary window comes with
a full quota window. -/
theorem applyUsageQuota_quota (now : ℚ) {q : QuotaInput} (hstatus : q.status = .quotaExceeded)
    (hprimary : ∀ u, q.primaryUsed = some u → u < 100 ∨ ∃ v, q.secondaryUsed = some v ∧ 100 ≤ v)
    (hnone : q.secondaryUsed = none → q.secondaryReset = none) :
    (∃ v, q.secondaryUsed = some v ∧ v < 100 ∧ ahead now q.runtimeReset = false) ∨
    (applyUsageQuota now q).1 = .quotaExceeded ∧
      ((∃ z : ℤ, q.secondaryReset = some z ∧ (applyUsageQuota now q).2.2 = some (z : ℚ)) ∨
        (applyUsageQuota now q).2.2 = q.runtimeReset ∧
          ∀ v, q.secondaryUsed = some v → v < 100 ∨ q.secondaryReset = none) := by
  unfold applyUsageQuota
  simp only [hstatus,reduceCtorEq,or_self,if_false,if_true]
  cases hv : q.secondaryUsed with
  | none =>
    have hbelow : ∀ u, q.primaryUsed = some u → u < 100 := by
      intro u hu
      rcases hprimary u hu with h | ⟨v,hsome,_⟩
      · exact h
      · rw [hv] at hsome
        cases hsome
    obtain ⟨hs,hz⟩ := applyPrimaryQuota_quota now hbelow q.runtimeReset
    simp only [hnone hv]
    exact .inr ⟨hs,.inr ⟨hz,nofun⟩⟩
  | some v =>
    simp only []
    split_ifs with hfull hahead
    · refine .inr ⟨rfl,?_⟩
      cases hz : q.secondaryReset with
      | none => exact .inr ⟨rfl,fun _ _ => .inr rfl⟩
      | some z => exact .inl ⟨z,rfl,rfl⟩
    · have hbelow : ∀ u, q.primaryUsed = some u → u < 100 := by
        intro u hu
        rcases hprimary u hu with h | ⟨w,hw,hle⟩
        · exact h
        · rw [hv] at hw
          cases hw
          exact absurd hle hfull
      obtain ⟨hs,hz⟩ := applyPrimaryQuota_quota now hbelow q.runtimeReset
      refine .inr ⟨hs,.inr ⟨hz,fun w hw => ?_⟩⟩
      cases hw
      exact .inl (not_le.mp hfull)
    · exact .inl ⟨v,rfl,not_le.mp hfull,Bool.eq_false_iff.mpr hahead⟩

/-- The block is kept, until the same time or the end of the window that was seen,
unless it may be lifted. -/
theorem built_quota (hstatus : row.status = .quotaExceeded)
    (hblocked : row.blockedAt = some (truncate b)) (hreset : row.resetAt = some r) (hr : r ≠ 0)
    (hsteady : x.steady b = true) :
    (r : ℚ) ≤ x.now ∨ x.refreshed b = true ∨
    (x.stateAndRuntime env row runtime).1.status = .quotaExceeded ∧
      ∃ z : ℤ, (x.stateAndRuntime env row runtime).1.resetAt = some (z : ℚ) ∧
        (z = r ∨ ∃ e, x.quotaEntry = some e ∧ e.resetAt = some z) := by
  have heffective : (x.input env row runtime).runtimeReset = _ :=
    quota_effectiveReset hstatus hblocked hreset hr
  simp only [Build.steady,Bool.and_eq_true] at hsteady
  obtain ⟨hprimary,hquota⟩ := hsteady
  have hfull : ∀ u, (x.input env row runtime).primaryUsed = some u →
      u < 100 ∨ ∃ v, (x.input env row runtime).secondaryUsed = some v ∧ 100 ≤ v := by
    intro u hu
    obtain ⟨p,hp,rfl⟩ := Option.map_eq_some_iff.mp hu
    simp only [hp,Option.all_some,Bool.or_eq_true,decide_eq_true_eq,Option.any_eq_true] at hprimary
    rcases hprimary with h | ⟨e,he,hle⟩
    · exact .inl h
    · exact .inr ⟨e.usedPercent,Option.map_eq_some_iff.mpr ⟨e,he,rfl⟩,hle⟩
  rcases applyUsageQuota_quota x.now (q := x.input env row runtime) hstatus hfull
    (input_secondary _ _ _ _) with ⟨v,hv,hlt,hahead⟩ | ⟨hs,⟨z,hz,hreset⟩ | ⟨hkept,hsecondary⟩⟩
  · obtain ⟨e,he,rfl⟩ := Option.map_eq_some_iff.mp hv
    rw [heffective,he,Option.any_some] at hahead
    rw [he,Option.all_some,if_neg (not_le.mpr hlt)] at hquota
    split_ifs at hahead with hnewer
    · rw [hnewer] at hquota
      exact .inr (.inl hquota)
    · simp only [ahead,Bool.and_eq_false_iff,decide_eq_false_iff_not,not_lt] at hahead
      rcases hahead with hzero | hle
      · simp [hr] at hzero
      · exact .inl hle
  · obtain ⟨e,he,hu⟩ := Option.bind_eq_some_iff.mp hz
    exact .inr (.inr ⟨hs,z,hreset,.inr ⟨e,he,hu⟩⟩)
  · by_cases hnewer : x.quotaEntry.any (x.takenForNewer b) = true
    · obtain ⟨e,he,hnewer⟩ := (Option.any_eq_true _ _).mp hnewer
      rw [he,Option.all_some,hnewer] at hquota
      split_ifs at hquota with hle
      · have hz : e.resetAt.isSome = true := hquota
        rcases hsecondary e.usedPercent (Option.map_eq_some_iff.mpr ⟨e,he,rfl⟩) with h | h
        · exact absurd hle (not_le.mpr h)
        · have hnone : e.resetAt = none := by simpa [Build.input,he] using h
          rw [hnone] at hz
          cases hz
      · exact .inr (.inl hquota)
    · rw [heffective,if_neg hnewer] at hkept
      exact .inr (.inr ⟨hs,r,hkept,.inl rfl⟩)

end

section
variable {b : ℚ} {r : ℤ} {builds later : List Build} {t : ℚ}

theorem Permitted.mono {u : ℚ} (h : Permitted b r builds t) (hbuilds : builds ⊆ later)
    (htu : t ≤ u) : Permitted b r later u := by
  rcases h with h | ⟨x,hx,hnow,hover | hfresh⟩
  · exact .inl (h.trans htu)
  · refine .inr ⟨x,hbuilds hx,hnow.trans htu,.inl ?_⟩
    obtain ⟨e,he,hu⟩ := (Option.any_eq_true _ _).mp hover
    obtain ⟨z,hz,hle⟩ := (Option.any_eq_true _ _).mp hu
    simp only [decide_eq_true_eq] at hle
    simp [Build.windowOver,he,hz,hle.trans htu]
  · exact .inr ⟨x,hbuilds hx,hnow.trans htu,.inr hfresh⟩

/-- A reset time that comes from the mark or from a row of the quota window. -/
def Sourced (r : ℤ) (builds : List Build) (z : ℤ) : Prop :=
  z = r ∨ ∃ x ∈ builds, ∃ e, x.quotaEntry = some e ∧ e.resetAt = some z

variable {z : ℤ}

theorem Sourced.mono (h : Sourced r builds z) (hbuilds : builds ⊆ later) : Sourced r later z := by
  rcases h with h | ⟨x,hx,h⟩
  · exact .inl h
  · exact .inr ⟨x,hbuilds hx,h⟩

theorem Sourced.permitted (h : Sourced r builds z) (hnow : ∀ x ∈ builds, x.now ≤ t)
    (hz : (z : ℚ) ≤ t) : Permitted b r builds t := by
  rcases h with rfl | ⟨x,hx,e,he,hu⟩
  · exact .inl hz
  · exact .inr ⟨x,hx,hnow x hx,.inl (by simp [Build.windowOver,he,hu,hz])⟩

/-- The row and the state of a selection under way are blocked by a reset time that
has a source. -/
structure Blocked (b : ℚ) (r : ℤ) (s : Standing) : Prop where
  status : s.row.status = .quotaExceeded
  blockedAt : s.row.blockedAt = some (truncate b)
  resetAt : ∃ z, s.row.resetAt = some z ∧ z ≠ 0 ∧ Sourced r s.builds z
  state : ∀ a, s.state = some a → a.status = .quotaExceeded ∧ a.blockedAt = some (truncate b : ℚ) ∧
    ∃ z : ℤ, a.resetAt = some (z : ℚ) ∧ Sourced r s.builds z

structure Guarded (b : ℚ) (r : ℤ) (s : Standing) : Prop where
  clock : 1 ≤ s.now
  seen : ∀ x ∈ s.builds, x.now ≤ s.now
  block : Permitted b r s.builds s.now ∨ Blocked b r s

theorem truncate_ne_zero (h : 1 ≤ t) : truncate t ≠ 0 := by
  have hfloor : 1 ≤ ⌊t⌋ := Int.le_floor.mpr (by exact_mod_cast h)
  rw [truncate,if_pos (by linarith)]
  omega

theorem guarded_marked (hb : 1 ≤ b) {error : UpstreamError} {account : Account}
    {runtime : RuntimeState} :
    Guarded b (quotaReset b error) (.marked env b error account runtime .quotaExceeded) := by
  refine ⟨hb,fun x hx => (List.not_mem_nil hx).elim,?_⟩
  by_cases hr : quotaReset b error = 0
  · refine .inl (.inl ?_)
    rw [hr]
    change ((0 : ℤ) : ℚ) ≤ b
    push_cast
    linarith
  · refine .inr ⟨rfl,?_,⟨quotaReset b error,storedTime_intCast hr,hr,.inl rfl⟩,
      fun a ha => by cases ha⟩
    change storedTime (some b) = _
    rw [storedTime,if_neg (by linarith)]

variable {env : Env} {s : Standing} {m : Move}

theorem step_builds {t : Standing} (h : s.step env m = some t) :
    s.builds ⊆ t.builds ∧ ∀ x ∈ t.builds, x ∈ s.builds ∨ x.now = t.now := by
  obtain ⟨_,hnow,⟨x,rfl,_,hx,_⟩ | ⟨_,_,_,_,hx,_⟩ | ⟨_,_,_,_,hx,_⟩ | ⟨_,_,hx,_⟩⟩ :=
    Standing.step_cases h
  · rw [hx]
    refine ⟨List.subset_cons_self _ _,fun y hy => ?_⟩
    rcases List.mem_cons.mp hy with rfl | hy
    · exact .inr hnow.symm
    · exact .inl hy
  all_goals
    rw [hx]
    exact ⟨List.Subset.refl _,fun _ hy => .inl hy⟩

theorem guarded_step (hb : 1 ≤ b) {t : Standing} (hs : Guarded b r s) (hm : SteadyMove b s m)
    (h : s.step env m = some t) : Guarded b r t := by
  obtain ⟨hle,hnow,hcases⟩ := Standing.step_cases h
  obtain ⟨hsub,hnew⟩ := step_builds h
  have hst : s.now ≤ t.now := hle.trans hnow.ge
  have hclock : 1 ≤ t.now := hs.clock.trans hst
  have hseen : ∀ x ∈ t.builds, x.now ≤ t.now := by
    intro x hx
    rcases hnew x hx with hold | heq
    · exact (hs.seen x hold).trans hst
    · exact heq.le
  refine ⟨hclock,hseen,?_⟩
  rcases hs.block with hp | hB
  · exact .inl (hp.mono hsub hst)
  obtain ⟨z,hz,hne,hsource⟩ := hB.resetAt
  have hkept := hsource.mono hsub
  rcases hcases with ⟨x,rfl,hrow,hbuilds,_,hstate⟩ | ⟨a,ha,hrow,_,_,hstate⟩ |
    ⟨a,_,ha,hrow,_,hstate,_⟩ | ⟨hrow,_,_,hstate⟩
  · have hmem : x ∈ t.builds := hbuilds ▸ List.mem_cons_self
    have hxt : x.now = t.now := hnow.symm
    rcases built_quota hB.status hB.blockedAt hz hne
      (hm hB.status) with hover | hfresh | ⟨hstatus,u,hu,hsourced⟩
    · exact .inl (hkept.permitted hseen (hxt ▸ hover))
    · exact .inl (.inr ⟨x,hmem,hxt.le,.inr hfresh⟩)
    · refine .inr ⟨hrow ▸ hB.status,hrow ▸ hB.blockedAt,⟨z,hrow ▸ hz,hne,hkept⟩,?_⟩
      intro a ha
      cases hstate.symm.trans ha
      refine ⟨hstatus,?_,u,hu,?_⟩
      · rw [built_blockedAt,if_pos (.inl hstatus),effectiveBlockedAt,hB.blockedAt]
      · rcases hsourced with rfl | ⟨e,he,hue⟩
        · exact hkept
        · exact .inr ⟨x,hmem,e,he,hue⟩
  · obtain ⟨hstatus,hblocked,u,hu,hstateSource⟩ := hB.state a ha
    by_cases hover : (u : ℚ) ≤ m.now
    · exact .inl ((hstateSource.mono hsub).permitted hseen (hnow ▸ hover))
    · rw [screen_of_not_reached (.inr hstatus) (by simp [reached,hu,hover])] at hstate
      refine .inr ⟨hrow ▸ hB.status,hrow ▸ hB.blockedAt,⟨z,hrow ▸ hz,hne,hkept⟩,fun v hv => ?_⟩
      cases hstate.symm.trans hv
      exact ⟨hstatus,hblocked,u,hu,hstateSource.mono hsub⟩
  · obtain ⟨hstatus,hblocked,u,hu,hstateSource⟩ := hB.state a ha
    obtain ⟨hrowStatus,hrowReset,hrowBlocked⟩ := hrow
    by_cases hzero : u = 0
    · refine .inl ((hstateSource.mono hsub).permitted hseen ?_)
      rw [hzero]
      push_cast
      linarith
    · refine .inr ⟨hrowStatus.trans hstatus,?_,⟨u,?_,hzero,hstateSource.mono hsub⟩,fun v hv => ?_⟩
      · rw [hrowBlocked,hblocked,storedTime_intCast (truncate_ne_zero hb)]
      · rw [hrowReset,hu,storedTime_intCast hzero]
      · cases hstate.symm.trans hv
  · refine .inr ⟨hrow ▸ hB.status,hrow ▸ hB.blockedAt,⟨z,hrow ▸ hz,hne,hkept⟩,fun v hv => ?_⟩
    cases hstate.symm.trans hv

end

/-- In every run of selections and restarts whose builds are steady while the row is
blocked, an account is active only when the block may be lifted. -/
theorem quota_block_holds {env : Env} {b : ℚ} (hb : 1 ≤ b) {error : UpstreamError}
    {account : Account} {runtime : RuntimeState} {moves : List Move} {s : Standing}
    (h : Run (restrict (Steps (Standing.step env)) (SteadyMove b))
      (.marked env b error account runtime .quotaExceeded) moves s)
    (hactive : s.row.status = .active ∨ ∃ a, s.state = some a ∧ a.status = .active) :
    Permitted b (quotaReset b error) s.builds s.now := by
  have hs : Guarded b (quotaReset b error) s :=
    h.invariant (I := Guarded b (quotaReset b error))
      (fun _ _ _ hs hstep => guarded_step hb hs hstep.1 hstep.2)
      (guarded_marked hb)
  rcases hs.block with hp | hB
  · exact hp
  · rcases hactive with hrow | ⟨a,ha,hstate⟩
    · rw [hB.status] at hrow
      cases hrow
    · rw [(hB.state a ha).1] at hstate
      cases hstate

/-- An active account without usage rows, marked until 100000. -/
def markedUntil (b : ℚ) : Standing :=
  .marked sampleEnv b ⟨none,some 100000,none⟩ activeAccount {} .quotaExceeded

/-- A row from before the block leaves it alone, one from after it lifts it. -/
theorem refreshed_quota_lifted :
    ∃ s, Run (restrict (Steps (Standing.step sampleEnv)) (SteadyMove 1000)) (markedUntil 1000)
      (aloneAt 1150 none (some ⟨50,some 99000,some 10080,900⟩)++
        aloneAt 1200 none (some ⟨60,some 99000,some 10080,1100⟩)) s ∧
      s.row.status = .active ∧ Permitted 1000 100000 s.builds s.now :=
  exists_run_with (fun _ hrun hactive =>
    ⟨hactive,quota_block_holds (by norm_num) hrun (.inl hactive)⟩) (by decide +kernel)

/-- Three accounts that are active too early: a full primary window that ends at 1300
has replaced the block; a full quota row without a reset time has taken the reset time
away; and a row recorded in the second of the block, but before it, counts as newer. -/
theorem quota_lifted_early : (∃ s, Run (Steps (Standing.step sampleEnv)) (markedUntil 1000)
      (aloneAt 1200 (some ⟨100,some 1300,some 300,1190⟩) none++aloneAt 1300 none none) s ∧
      s.row.status = .active ∧ ¬ Permitted 1000 100000 s.builds s.now) ∧
    (∃ s, Run (Steps (Standing.step sampleEnv)) (markedUntil 1000)
      (aloneAt 1200 none (some ⟨100,none,some 10080,1190⟩)++
        aloneAt 1300 none (some ⟨50,none,some 10080,900⟩)) s ∧
      s.row.status = .active ∧ ¬ Permitted 1000 100000 s.builds s.now) ∧
    ∃ s, Run (Steps (Standing.step sampleEnv)) (markedUntil (1000+9/10))
      (aloneAt 1200 none (some ⟨50,some 99000,some 10080,1000+1/2⟩)) s ∧
      s.row.status = .active ∧ ¬ Permitted (1000+9/10) 100000 s.builds s.now := by
  have hearly {s : Standing} {moves : List Move} {b : ℚ}
      (h : (exec (Standing.step sampleEnv) (fun _ _ => True) s moves).any (fun t =>
        decide (t.row.status = .active ∧ ¬ Permitted b 100000 t.builds t.now)) = true) :
      ∃ t, Run (Steps (Standing.step sampleEnv)) s moves t ∧ t.row.status = .active ∧
        ¬ Permitted b 100000 t.builds t.now := by
    obtain ⟨t,hrun,ht⟩ := exists_run_of_exec h
    exact ⟨t,hrun.erase,ht⟩
  exact ⟨hearly (by decide +kernel),hearly (by decide +kernel),hearly (by decide +kernel)⟩

end CodexLb.LoadBalancer
