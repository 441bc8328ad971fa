import CodexLb.LedgerAdmission
import Mathlib.Tactic.Linarith
import Mathlib.Tactic.Ring

/-!
# The two ways to reset a limit

`reset_expired_limits` reads the due rows in batches and resets each under
compare-and-set until a read finds none; `_lazy_reset_expired_limits` does it for the
rows of one key. Both roll a due row to the first end of a window after the current
time, so it makes no difference which of them comes first.
-/
namespace CodexLb.UsageLedger
open LimitWindows

/-- The rows one read of `reset_expired_limits` returns. -/
def expiredUpTo (batch : ℕ) (now : ℤ) (s : Store) : List ApiKeyLimit :=
  ((s.limits.rows.filter fun l => l.resetAt < now).insertionSort fun a b =>
    a.resetAt < b.resetAt ∨ a.resetAt = b.resetAt ∧ a.id ≤ b.id).take batch

/-- The loop over one batch, with the count of the rows that were reset. -/
def resetRows (now : ℤ) : List ApiKeyLimit → ℕ × Store → ℕ × Store
  | [],t => t
  | l::ls,t =>
    let r := t.2.resetLimit l.id l.resetAt (advanceLimitReset l.resetAt now l.limitWindow)
    resetRows now ls (if r.1 then t.1+1 else t.1,r.2)

/-- `reset_expired_limits`; `none` when more reads are needed than allowed. -/
def resetExpiredLimits (batch : ℕ) (now : ℤ) : ℕ → ℕ × Store → Option (ℕ × Store)
  | 0,_ => none
  | reads+1,t =>
    if expiredUpTo batch now t.2 = [] then some t
    else resetExpiredLimits batch now reads (resetRows now (expiredUpTo batch now t.2) t)

def Store.due (now : ℤ) (s : Store) : List ApiKeyLimit :=
  s.limits.rows.filter fun l => l.resetAt < now

def Store.rollThose (now : ℤ) (ls : List ApiKeyLimit) (s : Store) : Store :=
  (s.updateLimits (fun l => l ∈ ls && l.resetAt < now) (rolled now) fun _ => rfl).2

def Store.renewed (now : ℤ) (s : Store) : Store :=
  (s.updateLimits (fun l => l.resetAt < now) (rolled now) fun _ => rfl).2

variable {now : ℤ} {s : Store} {l : ApiKeyLimit} {ls : List ApiKeyLimit} {batch : ℕ}

example : expiredLimits now s = expiredUpTo expiredLimitResetBatchSize now s := rfl

theorem advanceFrom_le (w : LimitWindow) (now next : ℤ) (h : next ≤ now+limitWindowDelta w) :
    advanceFrom w now next ≤ now+limitWindowDelta w := by
  fun_induction advanceFrom w now next with
  | case1 next hle ih => exact ih (by omega)
  | case2 next _ => exact h

theorem advanceFrom_steps {w : LimitWindow} {next : ℤ} :
    ∃ k : ℕ, advanceFrom w now next = next+k*limitWindowDelta w := by
  fun_induction advanceFrom w now next with
  | case1 next _ ih =>
    obtain ⟨k,hk⟩ := ih
    refine ⟨k+1,hk.trans ?_⟩
    push_cast
    ring
  | case2 next _ => exact ⟨0,by simp⟩

/-- At most one point of the grid lies in a window. -/
theorem grid_unique {a d : ℤ} (hd : 0 < d) {j k : ℕ} (hj : now < a+j*d ∧ a+j*d ≤ now+d)
    (hk : now < a+k*d ∧ a+k*d ≤ now+d) : j = k := by
  have hlt : (j : ℤ)*d < (k+1)*d := by linarith
  have hgt : (k : ℤ)*d < (j+1)*d := by linarith
  have h₁ := lt_of_mul_lt_mul_right hlt hd.le
  have h₂ := lt_of_mul_lt_mul_right hgt hd.le
  omega

theorem rolled_on_grid (hdue : l.resetAt < now) :
    ∃ k : ℕ, 1 ≤ k ∧ (rolled now l).resetAt = l.resetAt+k*limitWindowDelta l.limitWindow ∧
      now < (rolled now l).resetAt ∧
      (rolled now l).resetAt ≤ now+limitWindowDelta l.limitWindow ∧
      ∀ j : ℕ, now < l.resetAt+j*limitWindowDelta l.limitWindow ∧
        l.resetAt+j*limitWindowDelta l.limitWindow ≤ now+limitWindowDelta l.limitWindow →
          j = k := by
  have hpos := limitWindowDelta_pos l.limitWindow
  obtain ⟨k,hk⟩ := advanceFrom_steps
  have hlt := lt_advanceFrom l.limitWindow now l.resetAt
  have hle := advanceFrom_le l.limitWindow now l.resetAt (by omega)
  refine ⟨k,?_,hk,hlt,hle,fun j hj => grid_unique hpos hj ⟨hk ▸ hlt,hk ▸ hle⟩⟩
  rw [Nat.one_le_iff_ne_zero]
  rintro rfl
  rw [hk] at hlt
  simp only [Nat.cast_zero,zero_mul,add_zero] at hlt
  exact absurd (hdue.trans hlt) (lt_irrefl _)

theorem store_ext {t : Store} (hk : s.apiKeys = t.apiKeys) (hl : s.limits.rows = t.limits.rows)
    (hr : s.reservations = t.reservations) : s = t := by
  obtain ⟨_,⟨_,_⟩,_⟩ := s
  cases hk
  cases hl
  cases hr
  rfl

theorem lazyReset_apiKeys (s : Store) :
    (lazyResetExpiredLimits now ls s).2.apiKeys = s.apiKeys := by
  induction ls generalizing s with
  | nil => rfl
  | cons l ls ih =>
    rw [lazyResetExpiredLimits]
    split_ifs
    · exact ih s
    · exact ih _

theorem lazyReset_eq (hls : ∀ l ∈ ls, l ∈ s.limits.rows) (hnodup : (ls.map (·.id)).Nodup) :
    (lazyResetExpiredLimits now ls s).2 = s.rollThose now ls := by
  refine store_ext (lazyReset_apiKeys s) ?_ (lazyResetExpiredLimits_reservations now ls s)
  rw [lazyReset_rows now hls hnodup]
  simp [Store.rollThose,Store.updateLimits,KeyedTable.update]

variable {n : ℕ}

/-- Every row of a batch is found as it was read, so each counts. -/
theorem resetRows_eq (hls : ∀ l ∈ ls, l ∈ s.limits.rows ∧ l.resetAt < now)
    (hnodup : (ls.map (·.id)).Nodup) :
    resetRows now ls (n,s) = (n+ls.length,(lazyResetExpiredLimits now ls s).2) := by
  induction ls generalizing s n with
  | nil => rfl
  | cons l ls ih =>
    simp only [List.map_cons,List.nodup_cons] at hnodup
    obtain ⟨hl,hdue⟩ := hls l (by simp)
    have hrows := resetLimit_rows hl now
    have hfound : (s.resetLimit l.id l.resetAt
        (advanceLimitReset l.resetAt now l.limitWindow)).1 = true :=
      List.any_eq_true.mpr ⟨l,hl,by simp⟩
    rw [resetRows,lazyResetExpiredLimits,if_neg (not_le.mpr hdue)]
    simp only [hfound,if_true]
    rw [ih (fun k hk => ⟨?_,(hls k (by simp [hk])).2⟩) hnodup.2,List.length_cons]
    · rw [Nat.add_assoc,Nat.add_comm 1]
    · rw [hrows]
      refine List.mem_map.mpr ⟨k,(hls k (by simp [hk])).1,if_neg ?_⟩
      rintro rfl
      exact hnodup.1 (List.mem_map_of_mem hk)

theorem rolled_not_due : ¬ (rolled now l).resetAt < now :=
  not_lt.mpr (lt_advanceFrom l.limitWindow now l.resetAt).le

theorem due_rollThose : (s.rollThose now ls).due now = (s.due now).filter (· ∉ ls) := by
  unfold Store.due Store.rollThose Store.updateLimits KeyedTable.update
  dsimp only
  induction s.limits.rows with
  | nil => rfl
  | cons k rows ih =>
    rw [List.map_cons,List.filter_cons,List.filter_cons,ih]
    by_cases hdue : k.resetAt < now
    · by_cases hk : k ∈ ls
      · simp [hk,hdue,rolled_not_due]
      · simp [hk,hdue]
    · simp [hdue]

theorem renewed_rollThose : (s.rollThose now ls).renewed now = s.renewed now := by
  refine store_ext rfl ?_ rfl
  simp only [Store.renewed,Store.rollThose,Store.updateLimits,KeyedTable.update,List.map_map]
  apply List.map_congr_left
  intro k _
  by_cases hdue : k.resetAt < now
  · by_cases hk : k ∈ ls
    · simp [hk,hdue,rolled_not_due]
    · simp [hk,hdue]
  · simp [hdue]

theorem length_due_rollThose (hn : ls.Nodup) (hsub : ∀ l ∈ ls, l ∈ s.due now) :
    ((s.rollThose now ls).due now).length+ls.length = (s.due now).length := by
  have hnodup : (s.due now).Nodup := (List.Nodup.of_map _ s.limits.nodup).filter _
  have hin : ((s.due now).filter (· ∈ ls)).Perm ls := by
    refine (List.perm_ext_iff_of_nodup (hnodup.filter _) hn).mpr fun l => ?_
    simpa using hsub l
  have hsplit := (List.filter_append_perm (fun l => decide (l ∈ ls)) (s.due now)).length_eq
  rw [List.length_append,hin.length_eq] at hsplit
  rw [due_rollThose,← hsplit,Nat.add_comm]
  simp

theorem expiredUpTo_due (hl : l ∈ expiredUpTo batch now s) : l ∈ s.due now :=
  (List.mem_insertionSort _).mp (List.mem_of_mem_take hl)

theorem nodup_expiredUpTo (batch : ℕ) (now : ℤ) (s : Store) :
    ((expiredUpTo batch now s).map (·.id)).Nodup := by
  have hperm := List.perm_insertionSort (fun a b : ApiKeyLimit =>
    a.resetAt < b.resetAt ∨ a.resetAt = b.resetAt ∧ a.id ≤ b.id) (s.due now)
  have hsorted := (hperm.map ApiKeyLimit.id).nodup_iff.mpr
    (s.limits.nodup.sublist (List.filter_sublist.map _))
  exact hsorted.sublist ((List.take_sublist ..).map _)

theorem due_of_expiredUpTo_nil (hb : 0 < batch) (h : expiredUpTo batch now s = []) :
    s.due now = [] := by
  rcases List.take_eq_nil_iff.mp h with hzero | hnil
  · omega
  · have hlen := congrArg List.length hnil
    rw [List.length_insertionSort] at hlen
    exact List.length_eq_zero_iff.mp hlen

theorem renewed_of_due_nil (h : s.due now = []) : s.renewed now = s := by
  refine store_ext rfl ?_ rfl
  refine (List.map_congr_left fun l hl => ?_).trans (List.map_id _)
  have hnot : ¬ l.resetAt < now := fun hdue => by
    have hmem : l ∈ s.due now := List.mem_filter.mpr ⟨hl,decide_eq_true hdue⟩
    rw [h] at hmem
    cases hmem
  simp [hnot]

theorem lazyReset_stale
    (h : ∀ l : ApiKeyLimit, l.resetAt < now → ∀ next, (s.resetLimit l.id l.resetAt next).1 = false) :
    (lazyResetExpiredLimits now ls s).2 = s := by
  induction ls with
  | nil => rfl
  | cons l ls ih =>
    rw [lazyResetExpiredLimits]
    split_ifs with hdue
    · exact ih
    · have hgone := List.any_eq_false.mp (h l (not_le.mp hdue)
        (advanceLimitReset l.resetAt now l.limitWindow))
      have hsame : (s.resetLimit l.id l.resetAt
          (advanceLimitReset l.resetAt now l.limitWindow)).2 = s :=
        store_ext rfl ((List.map_congr_left fun k hk => if_neg (hgone k hk)).trans
          (List.map_id _)) rfl
      simp only [hsame]
      exact ih

/-- One read more than there are due rows is enough, and every due row counts once. -/
theorem resetExpiredLimits_eq (hb : 0 < batch) {reads : ℕ} (hr : (s.due now).length < reads) :
    resetExpiredLimits batch now reads (n,s) = some (n+(s.due now).length,s.renewed now) := by
  induction reads generalizing s n with
  | zero => cases hr
  | succ reads ih =>
    rw [resetExpiredLimits]
    split_ifs with hnil
    · have hdue := due_of_expiredUpTo_nil hb hnil
      rw [hdue,renewed_of_due_nil hdue]
      rfl
    · have hids := nodup_expiredUpTo batch now s
      have hread : ∀ l ∈ expiredUpTo batch now s, l ∈ s.limits.rows ∧ l.resetAt < now :=
        fun l hl => by simpa [Store.due] using expiredUpTo_due hl
      have hlen := length_due_rollThose (List.Nodup.of_map _ hids) fun l hl => expiredUpTo_due hl
      have hpos : 0 < (expiredUpTo batch now s).length := List.length_pos_of_ne_nil hnil
      rw [resetRows_eq hread hids,lazyReset_eq (fun l hl => (hread l hl).1) hids,
        ih (by omega),renewed_rollThose]
      congr 2
      omega

/-- `reset_expired_limits` ends, with every due row rolled to the one end of a window
in `(now,now+window]`, and makes with `_lazy_reset_expired_limits`, in either order,
one reset of each due row. -/
theorem expired_limits_reset (hb : 0 < batch) (now : ℤ) (s : Store) : (∀ reads > (s.due now).length,
      resetExpiredLimits batch now reads (0,s) = some ((s.due now).length,s.renewed now)) ∧
    (s.renewed now).limits.rows =
      s.limits.rows.map (fun l => if l.resetAt < now then rolled now l else l) ∧
    (∀ k ∈ (s.renewed now).limits.rows, now ≤ k.resetAt) ∧
    (∀ l : ApiKeyLimit, l.resetAt < now → (rolled now l).currentValue = 0 ∧
      ∃ k : ℕ, 1 ≤ k ∧ (rolled now l).resetAt = l.resetAt+k*limitWindowDelta l.limitWindow ∧
        now < (rolled now l).resetAt ∧
        (rolled now l).resetAt ≤ now+limitWindowDelta l.limitWindow ∧
        ∀ j : ℕ, now < l.resetAt+j*limitWindowDelta l.limitWindow ∧
          l.resetAt+j*limitWindowDelta l.limitWindow ≤ now+limitWindowDelta l.limitWindow →
            j = k) ∧
    ∀ ls : List ApiKeyLimit, (∀ l ∈ ls, l ∈ s.limits.rows) → (ls.map (·.id)).Nodup →
      (∀ reads > (s.due now).length,
        resetExpiredLimits batch now reads (0,(lazyResetExpiredLimits now ls s).2) =
          some (((s.due now).filter (· ∉ ls)).length,s.renewed now)) ∧
      (lazyResetExpiredLimits now ls (s.renewed now)).2 = s.renewed now ∧
      ∀ l ∈ ls, l.resetAt < now → ∀ next,
        ((s.renewed now).resetLimit l.id l.resetAt next).1 = false := by
  have hrows : (s.renewed now).limits.rows =
      s.limits.rows.map (fun l => if l.resetAt < now then rolled now l else l) := by
    simp [Store.renewed,Store.updateLimits,KeyedTable.update]
  have hlate : ∀ k ∈ (s.renewed now).limits.rows, now ≤ k.resetAt := by
    intro k hk
    rw [hrows] at hk
    obtain ⟨l,-,rfl⟩ := List.mem_map.mp hk
    split_ifs with hdue
    · exact (lt_advanceFrom l.limitWindow now l.resetAt).le
    · exact not_lt.mp hdue
  have hgone : ∀ l : ApiKeyLimit, l.resetAt < now → ∀ next,
      ((s.renewed now).resetLimit l.id l.resetAt next).1 = false := by
    intro l hdue next
    refine List.any_eq_false.mpr fun k hk => ?_
    have hne : k.resetAt ≠ l.resetAt := (hdue.trans_le (hlate k hk)).ne'
    simp [hne]
  refine ⟨fun reads hr => ?_,hrows,hlate,fun l hdue => ⟨rfl,rolled_on_grid hdue⟩,
    fun ls hls hnodup => ⟨fun reads hr => ?_,?_,fun l _ => hgone l⟩⟩
  · rw [resetExpiredLimits_eq hb hr,Nat.zero_add]
  · have hle := List.length_filter_le (· ∉ ls) (s.due now)
    rw [lazyReset_eq hls hnodup,resetExpiredLimits_eq hb (by rw [due_rollThose]; omega),
      due_rollThose,renewed_rollThose,Nat.zero_add]
  · exact lazyReset_stale hgone

def dueStore : Store where
  apiKeys := KeyedTable.empty
  limits := ⟨[⟨1,"k",.totalTokens,.daily,10,7,none,0⟩,⟨2,"k",.costUsd,.fiveHours,10,3,none,900⟩,
    ⟨3,"k",.credits,.weekly,10,5,none,1000⟩],by decide⟩
  reservations := KeyedTable.empty

/-- Two of three rows are due; the third one ends its window just now. -/
theorem due_rows_reset : (dueStore.due 1000).map (·.id) = [1,2] ∧
      resetExpiredLimits 1 1000 3 (0,dueStore) = some (2,dueStore.renewed 1000) :=
  ⟨by decide,(expired_limits_reset Nat.one_pos 1000 dueStore).1 3 (by decide)⟩

end CodexLb.UsageLedger
