import CodexLb.LedgerSettlement
import CodexLb.Runs

/-!
# Conservation of the usage ledger

The background release works on a batch whose items were all read before its
first claim; the items of a reservation are still the ones read when its own
claim matches, because the earlier claims of the batch concern other rows.
With that every kind of transaction is covered, and the run theorem at the end
is about every order of transactions, starting from limits nobody has used.
-/
namespace CodexLb.UsageLedger
open LimitWindows Runs

/-- What holds between two claims of a batch that started from `s`. -/
structure BatchInv (s : Store) (e : Effect) : Prop extends Sound s e where
  opened : OpenedBefore s e.store

variable {s : Store} {cutoff now : ℤ} {id : String}

theorem releaseStaleOne_inv {e : Effect} (h : BatchInv s e) :
    BatchInv s (releaseStaleOne cutoff now (itemsOf s) e id) := by
  have hclose := releaseStaleOne_closing cutoff now h.opened id
  obtain ⟨_,_,hopened⟩ := hclose.settled h.settled
  have hsound := hclose.sound h.books h.settled (fun _ => le_rfl) h.adjusted
  exact ⟨⟨hsound.books,hsound.settled,h.kept.trans hsound.kept,hsound.adjusted⟩,
    fun q hq hqo => h.opened q (hopened q hq hqo) hqo⟩

theorem releaseStaleBatch_sound {batchSize : ℕ} (hb : Books s) (hs : Settled s) :
    Sound s (releaseStaleBatch cutoff batchSize now s) := by
  have aux : ∀ (ids : List String) (e : Effect), BatchInv s e →
      BatchInv s (ids.foldl (releaseStaleOne cutoff now (itemsOf s)) e) := by
    intro ids
    induction ids with
    | nil => exact fun e he => he
    | cons id ids ih => exact fun e he => ih _ (releaseStaleOne_inv he)
  exact (aux _ ⟨s,[]⟩ ⟨⟨hb,hs,Kept.refl s,by simp⟩,fun _ hr _ => hr⟩).toSound

def Transaction.NonNegative (price : Pricing) : Transaction → Prop
  | .finalize q _ | .fail q _ => q.NonNegative price
  | _ => True

theorem Settled.enforceLimitsForRequestOnce (price : Pricing) (req : LimitRequest) (id : String)
    (now : ℤ) (hs : Settled s) : Settled (enforceLimitsForRequestOnce price req id now s).2 := by
  rcases enforceLimitsForRequestOnce_reservations price req id now s with
    hres | ⟨r,hopen,hitems,hrows⟩
  · exact hs.of_reservations hres
  · intro q hq
    rw [hrows,List.mem_append,List.mem_singleton] at hq
    rcases hq with hq | rfl
    · exact hs q hq
    · exact Or.inl ⟨hopen,hitems⟩

variable {price : Pricing}

theorem reserve_sound {req : LimitRequest} (hb : Books s) (hs : Settled s) :
    Sound s ⟨(enforceLimitsForRequestOnce price req id now s).2,[]⟩ := by
  refine ⟨hb.enforceLimitsForRequestOnce price req id now,
    hs.enforceLimitsForRequestOnce price req id now,?_,by simp⟩
  rcases enforceLimitsForRequestOnce_reservations price req id now s with hres | ⟨r,_,_,hrows⟩
  · exact Kept.of_reservations hres
  · intro q hq _
    simp only [hrows]
    exact List.mem_append_left _ hq

theorem Settled.touchUsageReservation (id : String) (now : ℤ) (hs : Settled s) :
    Settled (s.touchUsageReservation id now).2 := by
  intro q hq
  obtain ⟨r,hr,rfl⟩ := KeyedTable.exists_of_mem_update hq
  have h := hs r hr
  split_ifs <;> exact h

theorem touch_sound (hb : Books s) (hs : Settled s) :
    Sound s ⟨(s.touchUsageReservation id now).2,[]⟩ := by
  refine ⟨hb.of_same_items _ _ _ fun _ => rfl,hs.touchUsageReservation id now,?_,by simp⟩
  intro q hq ht
  refine List.mem_map.mpr ⟨q,hq,if_neg ?_⟩
  intro hopen
  simp only [Bool.and_eq_true,decide_eq_true_eq] at hopen
  rw [hopen.2] at ht
  exact ht

theorem commit_sound {tx : Transaction} (htx : tx.NonNegative price)
    (hb : Books s) (hs : Settled s) : Sound s (tx.commit price s) := by
  cases tx with
  | reserve req id now => exact reserve_sound hb hs
  | finalize q now =>
    exact (settle_closing price q .finalized trivial now s).sound hb hs
      (fun i => SettleRequest.actual_nonneg htx i.limitType) (by simp)
  | fail q now =>
    exact (settle_closing price q .failed trivial now s).sound hb hs
      (fun i => SettleRequest.actual_nonneg htx i.limitType) (by simp)
  | release id now =>
    exact (release_closing id now s).sound hb hs (fun _ => le_rfl) (by simp)
  | releaseStale cutoff batchSize now => exact releaseStaleBatch_sound hb hs
  | resetLimit read now =>
    have hres := lazyResetExpiredLimits_reservations now [read] s
    exact ⟨hb.lazyResetExpiredLimits now _,hs.of_reservations hres,Kept.of_reservations hres,
      by simp [Transaction.commit]⟩
  | resetExpired now =>
    have hres := foldl_resetLimit_reservations now (expiredLimits now s) s
    exact ⟨hb.resetExpiredBatch now,hs.of_reservations hres,Kept.of_reservations hres,
      by simp [Transaction.commit]⟩
  | touch id now => exact touch_sound hb hs

def ledgerStep (price : Pricing) (s : Store) (tx : Transaction) (t : Store) : Prop :=
  tx.NonNegative price ∧ (tx.commit price s).store = t

structure Fresh (s : Store) : Prop where
  reservations : s.reservations.rows = []
  unused : ∀ l ∈ s.limits.rows, l.currentValue = 0

/-- What one item adds to the counter of its row: the reserved amount while
the reservation is open and the actual amount once it is terminal. -/
def itemUsage (l : ApiKeyLimit) (status : ReservationStatus) (i : ReservationItem) : ℤ :=
  if inWindow l i then
    match status with
    | .reserved => i.reservedDelta
    | .settling => 0
    | .finalized | .failed | .released => i.actualDelta.getD 0
  else 0

def windowUsage (s : Store) (l : ApiKeyLimit) : ℤ :=
  s.reservations.total fun r => r.items.total (itemUsage l r.status)

theorem Fresh.books (h : Fresh s) : Books s := by
  refine ⟨?_,?_,?_⟩
  · intro l hl
    rw [h.unused l hl]
    simp [windowCharge,KeyedTable.total,h.reservations]
  · simp [h.reservations]
  · simp [h.reservations]

theorem Fresh.settled (h : Fresh s) : Settled s := by simp [Settled,h.reservations]

variable {l : ApiKeyLimit}

theorem itemUsage_eq_itemCharge {r : UsageReservation}
    (h : (r.status = .reserved ∧ ∀ i ∈ r.items.rows, i.actualDelta = none) ∨ (r.status.Terminal ∧
      ∀ i ∈ r.items.rows, i.actualDelta.isSome)) {i : ReservationItem} (hi : i ∈ r.items.rows) :
    itemUsage l r.status i = itemCharge l i := by
  unfold itemUsage itemCharge
  by_cases hw : inWindow l i
  · rw [if_pos hw,if_pos hw]
    rcases h with ⟨hopen,hnone⟩ | ⟨hterm,hsome⟩
    · simp [hopen,ReservationItem.charge,hnone i hi]
    · obtain ⟨a,ha⟩ := Option.isSome_iff_exists.mp (hsome i hi)
      cases hst : r.status with
      | reserved | settling =>
        rw [hst] at hterm
        exact hterm.elim
      | finalized | failed | released => simp [ReservationItem.charge,ha]
  · rw [if_neg hw,if_neg hw]

theorem windowUsage_eq_windowCharge (hs : Settled s) : windowUsage s l = windowCharge s l :=
  KeyedTable.total_congr _ fun r hr =>
    KeyedTable.total_congr _ fun _ hi => itemUsage_eq_itemCharge (hs r hr) hi

section Runs
variable {price : Pricing} {s t : Store} {txs : List Transaction}

theorem run_consistent (h : Run (ledgerStep price) s txs t)
    (hs : Books s ∧ Settled s) : Books t ∧ Settled t := by
  refine h.invariant (I := fun s => Books s ∧ Settled s) ?_ hs
  rintro s tx t ⟨hb,hset⟩ ⟨htx,rfl⟩
  have hsound := commit_sound htx hb hset
  exact ⟨hsound.books,hsound.settled⟩

theorem run_kept (h : Run (ledgerStep price) s txs t) (hs : Books s ∧ Settled s) : Kept s t := by
  refine h.relates (I := fun s => Books s ∧ Settled s) (R := Kept) Kept.refl
    (fun _ _ _ => Kept.trans) ?_ hs
  rintro s tx t ⟨hb,hset⟩ ⟨htx,rfl⟩
  have hsound := commit_sound htx hb hset
  exact ⟨⟨hsound.books,hsound.settled⟩,hsound.kept⟩

/-- After every run: each counter is the usage of the row's current window, no
reservation is caught in `settling`, a terminal reservation is never changed by
what follows, and no transaction that follows has an adjustment of a row in the
item's window rejected. -/
theorem ledger_conserved (hs : Fresh s) (h : Run (ledgerStep price) s txs t) :
    (∀ l ∈ t.limits.rows, l.currentValue = windowUsage t l) ∧
    (∀ r ∈ t.reservations.rows, r.status = .reserved ∨ r.status.Terminal) ∧
    (∀ later u, Run (ledgerStep price) t later u → ∀ r ∈ t.reservations.rows,
      r.status.Terminal → u.reservations.find? r.id = some r) ∧
    (∀ tx : Transaction, tx.NonNegative price → ∀ a ∈ (tx.commit price t).adjustments,
      a.rowResetAt = some a.expectedResetAt → a.applied = true) := by
  obtain ⟨hbooks,hsettled⟩ := run_consistent h ⟨hs.books,hs.settled⟩
  refine ⟨?_,?_,?_,?_⟩
  · intro l hl
    rw [windowUsage_eq_windowCharge hsettled]
    exact hbooks.balanced l hl
  · intro r hr
    exact (hsettled r hr).imp And.left And.left
  · intro later u hlater r hr ht
    have hkept := run_kept hlater ⟨hbooks,hsettled⟩
    exact (KeyedTable.find?_eq_some _ _ _).mpr ⟨hkept r hr ht,rfl⟩
  · intro tx htx
    exact (commit_sound htx hbooks hsettled).adjusted

/-- No counter is ever negative, and each covers what any one reservation of its
current window is charged. -/
theorem counter_covers_reservations (hs : Fresh s)
    (h : Run (ledgerStep price) s txs t) (hl : l ∈ t.limits.rows) :
    0 ≤ l.currentValue ∧ ∀ r ∈ t.reservations.rows, ∀ i ∈ r.items.rows, inWindow l i →
      i.charge ≤ l.currentValue := by
  obtain ⟨hbooks,-⟩ := run_consistent h ⟨hs.books,hs.settled⟩
  refine ⟨?_,fun r hr i hi hw => charge_le_currentValue hbooks hr hi hl hw⟩
  rw [hbooks.balanced l hl]
  exact KeyedTable.total_nonneg _ fun r hr => r.items.total_nonneg fun i hi => itemCharge_nonneg hbooks hr l hi

end Runs

def meteredStore : Store where
  apiKeys := ⟨[⟨"k",true,none,none⟩],by decide⟩
  limits := ⟨[⟨1,"k",.totalTokens,.daily,100000,0,none,1000⟩],by decide⟩
  reservations := KeyedTable.empty

def meteredRun : List Transaction :=
  [.reserve ⟨"k",some "m",none,none⟩ "r" 10,
    .finalize ⟨"r","m",some 5,some 7,none,none⟩ 20]

def zeroPrice : Pricing := fun _ _ _ _ _ => 0

def meteredEnd : Store := meteredRun.foldl (fun s tx => (tx.commit zeroPrice s).store) meteredStore

theorem ledger_conserved_metered : meteredEnd.limits.rows.map (·.currentValue) = [12] ∧
      ∀ l ∈ meteredEnd.limits.rows, l.currentValue = windowUsage meteredEnd l :=
  ⟨by decide,(@ledger_conserved zeroPrice meteredStore meteredEnd meteredRun ⟨rfl,by decide⟩
    (.step ⟨trivial,rfl⟩ (.step ⟨⟨by decide,by decide,by decide,le_rfl⟩,rfl⟩ (.done _)))).1⟩

theorem metered_counter_covers :
    meteredEnd.limits.rows.length = 1 ∧ ∀ l ∈ meteredEnd.limits.rows, 0 ≤ l.currentValue :=
  ⟨by decide,fun _ hl => (@counter_covers_reservations _ zeroPrice meteredStore meteredEnd meteredRun
    ⟨rfl,by decide⟩
    (.step ⟨trivial,rfl⟩ (.step ⟨⟨by decide,by decide,by decide,le_rfl⟩,rfl⟩ (.done _))) hl).1⟩

end CodexLb.UsageLedger
