import CodexLb.UsageLedger
import Mathlib.Algebra.Order.Ring.Int

/-!
# What each statement does to the books

A reservation item is charged with its actual delta once it has one and with its
reserved delta before. Under that reading the counter of a limit row is, after
every single statement of a settlement, the sum of the charges of the items that
belong to the row's current window. The status of the reservation does not
enter, so the intermediate states of a transaction need no special case.
-/
namespace CodexLb.UsageLedger
open LimitWindows KeyedTable

def ReservationItem.charge (i : ReservationItem) : ℤ := i.actualDelta.getD i.reservedDelta

/-- The item was reserved on this row, in the window the row is in now. -/
def inWindow (l : ApiKeyLimit) (i : ReservationItem) : Prop :=
  i.limitId = l.id ∧ i.expectedResetAt = l.resetAt

instance (l : ApiKeyLimit) (i : ReservationItem) : Decidable (inWindow l i) :=
  inferInstanceAs (Decidable (_ ∧ _))

def itemCharge (l : ApiKeyLimit) (i : ReservationItem) : ℤ := if inWindow l i then i.charge else 0

def windowCharge (s : Store) (l : ApiKeyLimit) : ℤ :=
  s.reservations.total fun r => r.items.total (itemCharge l)

/-- The counters agree with the charges, no charge is negative, and no item
belongs to a window its row has not reached. -/
structure Books (s : Store) : Prop where
  balanced : ∀ l ∈ s.limits.rows, l.currentValue = windowCharge s l
  nonneg : ∀ r ∈ s.reservations.rows, ∀ i ∈ r.items.rows, 0 ≤ i.reservedDelta ∧ 0 ≤ i.charge
  past : ∀ r ∈ s.reservations.rows, ∀ i ∈ r.items.rows, ∀ l ∈ s.limits.rows,
    l.id = i.limitId → i.expectedResetAt ≤ l.resetAt

/-- No item belongs to a window its row has not reached. -/
def Past (s : Store) : Prop := ∀ r ∈ s.reservations.rows, ∀ i ∈ r.items.rows, ∀ l ∈ s.limits.rows,
  l.id = i.limitId → i.expectedResetAt ≤ l.resetAt

variable {s t : Store}

/-- Rows whose windows only move forward and items that were there before. -/
theorem Past.of_rows (h : Past s)
    (hlimits : ∀ k ∈ t.limits.rows, ∃ l ∈ s.limits.rows, k.id = l.id ∧ l.resetAt ≤ k.resetAt)
    (hitems : ∀ r ∈ t.reservations.rows, ∀ i ∈ r.items.rows, ∃ q ∈ s.reservations.rows, ∃ j ∈
      q.items.rows, j.limitId = i.limitId ∧ j.expectedResetAt = i.expectedResetAt) : Past t := by
  intro r hr i hi k hk hid
  obtain ⟨l,hl,hkl,hreset⟩ := hlimits k hk
  obtain ⟨q,hq,j,hj,hjid,hjr⟩ := hitems r hr i hi
  rw [← hjr]
  exact (h q hq j hj l hl (hkl.symm.trans (hid.trans hjid.symm))).trans hreset

variable {l k : ApiKeyLimit}

theorem itemCharge_congr (hid : k.id = l.id) (hr : k.resetAt = l.resetAt) (i : ReservationItem) :
    itemCharge k i = itemCharge l i := by
  have hw : inWindow k i ↔ inWindow l i := by simp only [inWindow,hid,hr]
  simp only [itemCharge,hw]

theorem windowCharge_congr (hres : t.reservations = s.reservations) (hid : k.id = l.id)
    (hr : k.resetAt = l.resetAt) : windowCharge t k = windowCharge s l := by
  rw [windowCharge,windowCharge,hres]
  exact total_congr _ fun r _ =>
    total_congr _ fun i _ => itemCharge_congr hid hr i

variable {r : UsageReservation} {i : ReservationItem}

theorem itemCharge_nonneg (h : Books s) (hr : r ∈ s.reservations.rows) (l : ApiKeyLimit)
    (hi : i ∈ r.items.rows) : 0 ≤ itemCharge l i := by
  unfold itemCharge
  split_ifs
  · exact (h.nonneg r hr i hi).2
  · exact le_rfl

theorem charge_le_currentValue (h : Books s) (hr : r ∈ s.reservations.rows)
    (hi : i ∈ r.items.rows) (hl : l ∈ s.limits.rows) (hw : inWindow l i) :
    i.charge ≤ l.currentValue := by
  have hitem : itemCharge l i ≤ r.items.total (itemCharge l) :=
    r.items.le_total (fun j hj => itemCharge_nonneg h hr l hj) hi
  have hres : r.items.total (itemCharge l) ≤ windowCharge s l :=
    s.reservations.le_total (w := fun r => r.items.total (itemCharge l))
      (fun q hq => q.items.total_nonneg fun j hj => itemCharge_nonneg h hq l hj) hr
  rw [h.balanced l hl]
  simpa only [itemCharge,if_pos hw] using hitem.trans hres

theorem Books.of_same_items (h : Books s) (p : UsageReservation → Bool)
    (f : UsageReservation → UsageReservation) (hf : ∀ r, (f r).id = r.id)
    (hitems : ∀ r, (f r).items = r.items) : Books (s.updateReservations p f hf).2 := by
  have hsame : ∀ r, (if p r then f r else r).items = r.items := by
    intro r
    split_ifs
    · exact hitems r
    · rfl
  refine ⟨?_,?_,?_⟩
  · intro l hl
    rw [h.balanced l hl]
    simp only [windowCharge,Store.updateReservations,total_update,hsame]
  · intro r hr i hi
    obtain ⟨q,hq,rfl⟩ := exists_of_mem_update hr
    exact h.nonneg q hq i (hsame q ▸ hi)
  · intro r hr i hi l hl hid
    obtain ⟨q,hq,rfl⟩ := exists_of_mem_update hr
    exact h.past q hq i (hsame q ▸ hi) l hl hid

theorem Books.updateLastUsed (h : Books s) (keyId : String) (now : ℤ) :
    Books (s.updateLastUsed keyId now) := ⟨h.balanced,h.nonneg,h.past⟩

theorem windowCharge_eq_zero
    (h : ∀ r ∈ s.reservations.rows, ∀ i ∈ r.items.rows, i.limitId = l.id → i.expectedResetAt <
      l.resetAt) : windowCharge s l = 0 := by
  apply total_eq_zero
  intro r hr
  apply total_eq_zero
  intro i hi
  rw [itemCharge,if_neg]
  rintro ⟨hid,hreset⟩
  exact absurd hreset (h r hr i hi hid).ne

variable {expectedResetAt newResetAt : ℤ}

theorem Past.resetLimit (h : Past s) (limitId : ℕ) (hlt : expectedResetAt < newResetAt) :
    Past (s.resetLimit limitId expectedResetAt newResetAt).2 := by
  apply h.of_rows
  · intro k hk
    obtain ⟨l,hl,rfl⟩ := exists_of_mem_update hk
    refine ⟨l,hl,?_⟩
    split_ifs with hc
    · simp only [Bool.and_eq_true,decide_eq_true_eq] at hc
      exact ⟨rfl,(hc.2.trans_lt hlt).le⟩
    · exact ⟨rfl,le_rfl⟩
  · exact fun r hr i hi => ⟨r,hr,i,hi,rfl,rfl⟩

theorem Books.resetLimit (h : Books s) (limitId : ℕ) (hlt : expectedResetAt < newResetAt) :
    Books (s.resetLimit limitId expectedResetAt newResetAt).2 := by
  refine ⟨?_,h.nonneg,Past.resetLimit h.past limitId hlt⟩
  intro k hk
  obtain ⟨l,hl,rfl⟩ := exists_of_mem_update hk
  by_cases hc : (decide (l.id = limitId) && decide (l.resetAt = expectedResetAt)) = true
  · rw [if_pos hc]
    symm
    apply windowCharge_eq_zero
    intro r hr i hi hid
    have hpast := h.past r hr i hi l hl hid.symm
    simp only [Bool.and_eq_true,decide_eq_true_eq] at hc
    exact hpast.trans_lt (hc.2.trans_lt hlt)
  · rw [if_neg hc,h.balanced l hl]
    rfl

theorem lazyResetExpiredLimits_reservations (now : ℤ) (ls : List ApiKeyLimit) (s : Store) :
    (lazyResetExpiredLimits now ls s).2.reservations = s.reservations := by
  induction ls generalizing s with
  | nil => rfl
  | cons l ls ih =>
    rw [lazyResetExpiredLimits]
    split_ifs
    · exact ih s
    · exact ih _

theorem Books.lazyResetExpiredLimits (h : Books s) (now : ℤ) (ls : List ApiKeyLimit) :
    Books (lazyResetExpiredLimits now ls s).2 := by
  induction ls generalizing s with
  | nil => exact h
  | cons l ls ih =>
    rw [UsageLedger.lazyResetExpiredLimits]
    split_ifs with hdue
    · exact ih h
    · exact ih (h.resetLimit l.id (lt_advanceLimitReset l.limitWindow (not_le.mp hdue)))

theorem foldl_resetLimit_reservations (now : ℤ) (ls : List ApiKeyLimit) (s : Store) :
    (ls.foldl (fun t l =>
      (t.resetLimit l.id l.resetAt (advanceLimitReset l.resetAt now l.limitWindow)).2) s).reservations =
      s.reservations := by
  induction ls generalizing s with
  | nil => rfl
  | cons l ls ih => exact ih _

theorem resetAt_lt_of_mem_expiredLimits {now : ℤ} (hl : l ∈ expiredLimits now s) :
    l.resetAt < now := by
  have hm := (List.mem_insertionSort _).mp (List.mem_of_mem_take hl)
  simpa using (List.mem_filter.mp hm).2

theorem Books.resetExpiredBatch (h : Books s) (now : ℤ) : Books (resetExpiredBatch now s) := by
  have aux : ∀ (ls : List ApiKeyLimit) (t : Store), (∀ l ∈ ls, l.resetAt < now) → Books t →
      Books (ls.foldl (fun t l =>
        (t.resetLimit l.id l.resetAt (advanceLimitReset l.resetAt now l.limitWindow)).2) t) := by
    intro ls
    induction ls with
    | nil => intro t _ ht; exact ht
    | cons l ls ih =>
      intro t hls ht
      exact ih _ (fun k hk => hls k (by simp [hk]))
        (ht.resetLimit l.id (lt_advanceLimitReset l.limitWindow (hls l (by simp))))
  exact aux _ s (fun l hl => resetAt_lt_of_mem_expiredLimits hl) h

variable {items : KeyedTable ReservationItem.limitId} {item : ReservationItem} {a : ℤ}

theorem upsertActual_of_mem (h : item ∈ items.rows) :
    Store.upsertActual items item a = items.update (fun q => q.limitId = item.limitId)
      (fun q => {q with actualDelta := some a}) (fun _ => rfl) := by
  rw [Store.upsertActual,dif_neg]
  exact fun hno => hno item h rfl

theorem total_upsertActual (h : item ∈ items.rows) {w : ReservationItem → ℤ} :
    (Store.upsertActual items item a).total w =
      items.total w+(w {item with actualDelta := some a}-w item) := by
  rw [upsertActual_of_mem h,total_update]
  rw [items.total_eq_add h (w := w)]
  · simp
  · intro q _ hq
    simp [hq]

theorem mem_upsertActual (h : item ∈ items.rows) (a : ℤ) (q : ReservationItem) :
    q ∈ (Store.upsertActual items item a).rows ↔
      q = {item with actualDelta := some a} ∨ q ∈ items.rows ∧ q.limitId ≠ item.limitId := by
  rw [upsertActual_of_mem h,mem_update]
  constructor
  · rintro ⟨r,hr,rfl⟩
    by_cases hid : r.limitId = item.limitId
    · left
      rw [items.eq_of_key hr h hid]
      simp
    · right
      simp only [decide_eq_true_eq,if_neg hid]
      exact ⟨hr,hid⟩
  · rintro (rfl | ⟨hq,hid⟩)
    · exact ⟨item,h,by simp⟩
    · exact ⟨q,hq,by simp [hid]⟩

section
variable (hr : r ∈ s.reservations.rows) (hi : item ∈ r.items.rows)
include hr hi

theorem total_upsertReservationItemActual (a : ℤ) (w : ReservationItem → ℤ) :
    ((s.upsertReservationItemActual r.id item a).reservations.total fun r => r.items.total w) =
      (s.reservations.total fun r => r.items.total w)+
        (w {item with actualDelta := some a}-w item) := by
  simp only [Store.upsertReservationItemActual,Store.updateReservations,total_update]
  rw [s.reservations.total_eq_add hr (w := fun r => r.items.total w)]
  · simp only [decide_true,if_true,total_upsertActual hi]
    omega
  · intro q _ hq
    simp [hq]

theorem windowCharge_upsert (a : ℤ) (l : ApiKeyLimit) :
    windowCharge (s.upsertReservationItemActual r.id item a) l =
      windowCharge s l+(if inWindow l item then a-item.charge else 0) := by
  rw [windowCharge,total_upsertReservationItemActual hr hi,windowCharge]
  have hw : inWindow l {item with actualDelta := some a} ↔ inWindow l item := Iff.rfl
  simp only [itemCharge,hw,ReservationItem.charge,Option.getD_some]
  split_ifs <;> omega

theorem mem_items_upsert {a : ℤ} {q : UsageReservation}
    (hq : q ∈ (s.upsertReservationItemActual r.id item a).reservations.rows)
    (hiq : i ∈ q.items.rows) :
    i = {item with actualDelta := some a} ∨ ∃ p ∈ s.reservations.rows, i ∈ p.items.rows := by
  obtain ⟨p,hp,rfl⟩ := exists_of_mem_update hq
  by_cases hid : p.id = r.id
  · obtain rfl := s.reservations.eq_of_key hp hr hid
    simp only [decide_true,if_true,mem_upsertActual hi] at hiq
    exact hiq.imp_right fun h => ⟨p,hp,h.1⟩
  · simp only [decide_eq_true_eq,if_neg hid] at hiq
    exact Or.inr ⟨p,hp,hiq⟩

end

/-- One pass through a settlement or release loop: adjust the counter by the
difference to the reserved amount, then record the actual amount. -/
def chargeItem (s : Store) (id : String) (item : ReservationItem) (a : ℤ) : Store :=
  (s.adjustReservedUsage item.limitId (a-item.reservedDelta)
    item.expectedResetAt).2.upsertReservationItemActual id item a

theorem adjustReservedUsage_zero (s : Store) (limitId : ℕ) (expectedResetAt : ℤ) :
    (s.adjustReservedUsage limitId 0 expectedResetAt).2 = s := by
  simp only [Store.adjustReservedUsage,Store.updateLimits,update,Int.add_zero]
  simp

section Charge
variable {s : Store} {r : UsageReservation} {item : ReservationItem} {a : ℤ}

theorem adjust_guard (h : Books s) (hr : r ∈ s.reservations.rows) (hi : item ∈ r.items.rows)
    (hopen : item.actualDelta = none) (ha : 0 ≤ a) (hl : l ∈ s.limits.rows) (hw : inWindow l item) :
    (decide (0 ≤ a-item.reservedDelta) || decide (-(a-item.reservedDelta) ≤ l.currentValue)) =
      true := by
  have hle := charge_le_currentValue h hr hi hl hw
  have hc : item.charge = item.reservedDelta := by simp [ReservationItem.charge,hopen]
  simp only [Bool.or_eq_true,decide_eq_true_eq]
  omega

theorem Past.chargeItem (h : Past s) (hr : r ∈ s.reservations.rows) (hi : item ∈ r.items.rows)
    (a : ℤ) : Past (UsageLedger.chargeItem s r.id item a) := by
  apply h.of_rows
  · intro k hk
    obtain ⟨l,hl,rfl⟩ := exists_of_mem_update hk
    refine ⟨l,hl,?_⟩
    split_ifs
    · exact ⟨rfl,le_rfl⟩
    · exact ⟨rfl,le_rfl⟩
  · intro q hq i hiq
    rcases mem_items_upsert hr hi hq hiq with rfl | ⟨p,hp,hip⟩
    · exact ⟨r,hr,item,hi,rfl,rfl⟩
    · exact ⟨p,hp,i,hip,rfl,rfl⟩

theorem Books.chargeItem (h : Books s) (hr : r ∈ s.reservations.rows) (hi : item ∈ r.items.rows)
    (hopen : item.actualDelta = none) (ha : 0 ≤ a) :
    Books (UsageLedger.chargeItem s r.id item a) := by
  have hc : item.charge = item.reservedDelta := by simp [ReservationItem.charge,hopen]
  refine ⟨?_,?_,?_⟩
  · intro k hk
    obtain ⟨l,hl,rfl⟩ := exists_of_mem_update hk
    have hsum := windowCharge_upsert hr hi a l
    by_cases hw : inWindow l item
    · have hp : (decide (l.id = item.limitId) && decide (l.resetAt = item.expectedResetAt) &&
          (decide (0 ≤ a-item.reservedDelta) ||
            decide (-(a-item.reservedDelta) ≤ l.currentValue))) = true := by
        rw [adjust_guard h hr hi hopen ha hl hw]
        simp [hw.1,hw.2]
      rw [if_pos hp]
      rw [if_pos hw,hc,← h.balanced l hl] at hsum
      exact hsum.symm
    · have hp : ¬ (decide (l.id = item.limitId) && decide (l.resetAt = item.expectedResetAt) &&
          (decide (0 ≤ a-item.reservedDelta) ||
            decide (-(a-item.reservedDelta) ≤ l.currentValue))) = true := by
        intro hp
        simp only [Bool.and_eq_true,decide_eq_true_eq] at hp
        exact hw ⟨hp.1.1.symm,hp.1.2.symm⟩
      rw [if_neg hp]
      rw [if_neg hw,Int.add_zero,← h.balanced l hl] at hsum
      exact hsum.symm
  · intro q hq i hiq
    rcases mem_items_upsert hr hi hq hiq with rfl | ⟨p,hp,hip⟩
    · exact ⟨(h.nonneg r hr item hi).1,by simpa [ReservationItem.charge] using ha⟩
    · exact h.nonneg p hp i hip
  · exact Past.chargeItem h.past hr hi a

end Charge

end CodexLb.UsageLedger
