import CodexLb.LedgerReserve

/-!
# Settling and releasing keep the books

Settlement and release walk through the items of one claimed reservation. One
step of either loop charges one open item.

Settlement, release and every claim of the stale batch are one shape, `Closing`:
claim a reservation, charge its items, close its row.
-/
namespace CodexLb.UsageLedger
open LimitWindows Relation

def ReservationStatus.Terminal : ReservationStatus → Prop
  | .finalized | .failed | .released => True
  | .reserved | .settling => False

instance : DecidablePred ReservationStatus.Terminal := fun s => by
  cases s <;> simp only [ReservationStatus.Terminal] <;> infer_instance

/-- Open reservations have no actual amounts and closed ones have all of them;
no committed reservation is in between. -/
def Settled (s : Store) : Prop := ∀ r ∈ s.reservations.rows,
  (r.status = .reserved ∧ ∀ i ∈ r.items.rows, i.actualDelta = none) ∨
    (r.status.Terminal ∧ ∀ i ∈ r.items.rows, i.actualDelta.isSome)

/-- Terminal reservations of the first store are rows of the second. -/
def Kept (s t : Store) : Prop :=
  ∀ r ∈ s.reservations.rows, r.status.Terminal → r ∈ t.reservations.rows

/-- A statement on a row that is still in the item's window has matched. -/
def Adjustment.Sound (a : Adjustment) : Prop :=
  a.rowResetAt = some a.expectedResetAt → a.applied = true

structure Sound (s : Store) (e : Effect) : Prop where
  books : Books e.store
  settled : Settled e.store
  kept : Kept s e.store
  adjusted : ∀ a ∈ e.adjustments, a.Sound

theorem Kept.refl (s : Store) : Kept s s := fun _ hr _ => hr

variable {s t : Store}

theorem Kept.trans {u : Store} (h : Kept s t) (k : Kept t u) : Kept s u :=
  fun r hr ht => k r (h r hr ht) ht

theorem Kept.of_reservations (h : t.reservations = s.reservations) : Kept s t :=
  fun _ hr _ => h ▸ hr

theorem Settled.of_reservations (hs : Settled s) (h : t.reservations = s.reservations) :
    Settled t := fun r hr => hs r (h ▸ hr)

/-- What `settleItem` and `releaseItem` have in common. -/
structure IsChargeStep (id : String) (actual : ReservationItem → ℤ)
    (g : Effect → ReservationItem → Effect) : Prop where
  store : ∀ e item, (g e item).store = chargeItem e.store id item (actual item)
  adjustments : ∀ e item, (g e item).adjustments = e.adjustments ∨
    (g e item).adjustments =
      (e.adjust item.limitId (actual item-item.reservedDelta) item.expectedResetAt).adjustments

theorem settleItem_isChargeStep (id : String) (actual : LimitType → ℤ) :
    IsChargeStep id (fun i => actual i.limitType) (settleItem id actual) := by
  constructor
  · intro e item
    unfold settleItem chargeItem
    by_cases hd : actual item.limitType-item.reservedDelta = 0
    · simp only [hd,ne_eq,not_true,if_false,adjustReservedUsage_zero]
    · simp only [ne_eq,hd,not_false_iff,if_true,Effect.adjust]
  · intro e item
    unfold settleItem
    by_cases hd : actual item.limitType-item.reservedDelta = 0
    · left
      simp only [hd,ne_eq,not_true,if_false]
    · right
      simp only [ne_eq,hd,not_false_iff,if_true]

theorem releaseItem_isChargeStep (id : String) : IsChargeStep id (fun _ => 0) (releaseItem id) := by
  constructor
  · intro e item
    simp only [releaseItem,chargeItem,Effect.adjust,Int.zero_sub]
  · intro e item
    right
    simp only [releaseItem,Int.zero_sub]

variable {e : Effect} {r : UsageReservation} {item : ReservationItem}

theorem adjust_sound {a : ℤ} (h : Books e.store) (hr : r ∈ e.store.reservations.rows)
    (hi : item ∈ r.items.rows) (hopen : item.actualDelta = none) (ha : 0 ≤ a)
    (hadj : ∀ x ∈ e.adjustments, x.Sound) :
    ∀ x ∈ (e.adjust item.limitId (a-item.reservedDelta) item.expectedResetAt).adjustments,
      x.Sound := by
  intro x hx
  rcases List.mem_append.mp hx with hx | hx
  · exact hadj x hx
  · rw [List.mem_singleton.mp hx]
    intro hreset
    obtain ⟨l,hl,hlr⟩ := Option.map_eq_some_iff.mp hreset
    obtain ⟨hmem,hid⟩ := (KeyedTable.find?_eq_some _ _ _).mp hl
    apply List.any_eq_true.mpr
    refine ⟨l,hmem,?_⟩
    rw [adjust_guard h hr hi hopen ha hmem ⟨hid.symm,hlr.symm⟩]
    simpa using And.intro hid hlr

variable {id : String}

theorem IsChargeStep.adjustments_sound {actual : ReservationItem → ℤ}
    {g : Effect → ReservationItem → Effect} (hg : IsChargeStep id actual g) (h : Books e.store)
    (hr : r ∈ e.store.reservations.rows) (hi : item ∈ r.items.rows)
    (hopen : item.actualDelta = none) (ha : 0 ≤ actual item) (hadj : ∀ x ∈ e.adjustments, x.Sound) :
    ∀ x ∈ (g e item).adjustments, x.Sound := by
  rcases hg.adjustments e item with hsame | hadjust
  · rw [hsame]
    exact hadj
  · rw [hadjust]
    exact adjust_sound h hr hi hopen ha hadj

def chargeItems (actual : ReservationItem → ℤ) (items : List ReservationItem)
    (t : KeyedTable ReservationItem.limitId) : KeyedTable ReservationItem.limitId :=
  items.foldl (fun t i => Store.upsertActual t i (actual i)) t

section Loop
variable {id : String} {actual : ReservationItem → ℤ} {g : Effect → ReservationItem → Effect}

theorem IsChargeStep.reservations (hg : IsChargeStep id actual g) (items : List ReservationItem)
    (e : Effect) :
    (items.foldl g e).store.reservations.rows = e.store.reservations.rows.map fun r =>
      if r.id = id then {r with items := chargeItems actual items r.items} else r := by
  induction items generalizing e with
  | nil =>
    rw [List.map_congr_left (g := fun r => r) fun r _ => by split_ifs <;> rfl]
    simp
  | cons item items ih =>
    rw [List.foldl_cons,ih,hg.store]
    simp only [chargeItem,chargeItems,Store.upsertReservationItemActual,Store.updateReservations,
      Store.adjustReservedUsage,Store.updateLimits,KeyedTable.update,List.map_map,List.foldl_cons]
    apply List.map_congr_left
    intro r _
    by_cases hid : r.id = id
    · simp [hid]
    · simp [hid]

/-- A property that charging one open item of the reservation keeps holds after
the loop has walked through distinct open items. -/
theorem IsChargeStep.foldl_induction (hg : IsChargeStep id actual g) {I : Effect → Prop}
    (hstep : ∀ e r item, I e → r ∈ e.store.reservations.rows → r.id = id → item ∈ r.items.rows →
      item.actualDelta = none → I (g e item)) (items : List ReservationItem) (e : Effect)
    (hr : r ∈ e.store.reservations.rows) (hid : r.id = id)
    (hnodup : (items.map (·.limitId)).Nodup)
    (hitems : ∀ i ∈ items, i ∈ r.items.rows ∧ i.actualDelta = none) (he : I e) :
    I (items.foldl g e) := by
  induction items generalizing e r with
  | nil => exact he
  | cons item items ih =>
    obtain ⟨hmem,hopen⟩ := hitems item (by simp)
    simp only [List.map_cons,List.nodup_cons] at hnodup
    have hrow : {r with items := Store.upsertActual r.items item (actual item)} ∈
        (g e item).store.reservations.rows := by
      have h := hg.reservations [item] e
      simp only [List.foldl_cons,List.foldl_nil] at h
      rw [h]
      exact List.mem_map.mpr ⟨r,hr,by simp [hid,chargeItems]⟩
    refine ih (g e item) hrow hid hnodup.2 ?_ (hstep e r item he hr hid hmem hopen)
    intro i hi
    obtain ⟨hir,hio⟩ := hitems i (by simp [hi])
    refine ⟨(mem_upsertActual hmem _ _).mpr (Or.inr ⟨hir,?_⟩),hio⟩
    exact fun he => hnodup.1 (List.mem_map.mpr ⟨i,hi,he⟩)

variable {q : ReservationItem}

/-- After the loop an item either was visited and has its actual amount, or
was not visited and is unchanged. -/
theorem mem_chargeItems {items : List ReservationItem} (t : KeyedTable ReservationItem.limitId)
    (hnodup : (items.map (·.limitId)).Nodup) (hmem : ∀ i ∈ items, i ∈ t.rows)
    (hq : q ∈ (chargeItems actual items t).rows) :
    q.actualDelta.isSome ∨ q ∈ t.rows ∧ ∀ i ∈ items, i.limitId ≠ q.limitId := by
  induction items generalizing t with
  | nil => exact Or.inr ⟨hq,by simp⟩
  | cons item items ih =>
    simp only [List.map_cons,List.nodup_cons] at hnodup
    have hitem := hmem item (by simp)
    have hrest : ∀ i ∈ items, i ∈ (Store.upsertActual t item (actual item)).rows := by
      intro i hi
      refine (mem_upsertActual hitem _ _).mpr (Or.inr ⟨hmem i (by simp [hi]),?_⟩)
      exact fun he => hnodup.1 (List.mem_map.mpr ⟨i,hi,he⟩)
    rcases ih _ hnodup.2 hrest hq with h | ⟨h,hne⟩
    · exact Or.inl h
    · rcases (mem_upsertActual hitem _ _).mp h with rfl | ⟨ht,hid⟩
      · exact Or.inl rfl
      · refine Or.inr ⟨ht,?_⟩
        intro i hi
        rcases List.mem_cons.mp hi with rfl | hi
        · exact hid.symm
        · exact hne i hi

theorem chargeItems_isSome {t : KeyedTable ReservationItem.limitId}
    (hq : q ∈ (chargeItems actual t.rows t).rows) : q.actualDelta.isSome := by
  rcases mem_chargeItems t t.nodup (fun _ hi => hi) hq with h | ⟨h,hne⟩
  · exact h
  · exact absurd rfl (hne q h)

end Loop

/-- No reservation of the second store is open unless the first has that row. -/
def OpenedBefore (s t : Store) : Prop :=
  ∀ r ∈ t.reservations.rows, r.status = .reserved → r ∈ s.reservations.rows

theorem settled_of_close (hs : Settled s) (hr : r ∈ s.reservations.rows)
    (hopen : r.status = .reserved) {d : UsageReservation → UsageReservation}
    (hrows : t.reservations.rows = s.reservations.rows.map fun q => if q.id = r.id then d q else q)
    (hd : (d r).status.Terminal) (hsome : ∀ i ∈ (d r).items.rows, i.actualDelta.isSome) :
    Settled t ∧ Kept s t ∧ OpenedBefore s t := by
  have hmem : ∀ q ∈ t.reservations.rows, q ∈ s.reservations.rows ∨ q = d r := by
    intro q hq
    rw [hrows] at hq
    obtain ⟨p,hp,rfl⟩ := List.mem_map.mp hq
    by_cases hid : p.id = r.id
    · obtain rfl := s.reservations.eq_of_key hp hr hid
      exact Or.inr (if_pos rfl)
    · rw [if_neg hid]
      exact Or.inl hp
  refine ⟨?_,?_,?_⟩
  · intro q hq
    rcases hmem q hq with hq | rfl
    · exact hs q hq
    · exact Or.inr ⟨hd,hsome⟩
  · intro q hq ht
    rw [hrows]
    refine List.mem_map.mpr ⟨q,hq,if_neg ?_⟩
    intro hid
    obtain rfl := s.reservations.eq_of_key hq hr hid
    rw [hopen] at ht
    exact ht
  · intro q hq hqopen
    rcases hmem q hq with hq | rfl
    · exact hq
    · rw [hqopen] at hd
      exact hd.elim

theorem open_items (hs : Settled s) (hr : r ∈ s.reservations.rows) (hopen : r.status = .reserved) :
    ∀ i ∈ r.items.rows, i.actualDelta = none := by
  rcases hs r hr with ⟨_,h⟩ | ⟨h,_⟩
  · exact h
  · rw [hopen] at h
    exact h.elim

section Close
variable {s : Store} {r : UsageReservation}

theorem find?_closed (hr : r ∈ s.reservations.rows) {d : UsageReservation → UsageReservation}
    (hd : (d r).id = r.id)
    (hrows : t.reservations.rows = s.reservations.rows.map fun q => if q.id = r.id then d q else q) :
    t.reservations.find? r.id = some (d r) := by
  refine (KeyedTable.find?_eq_some _ _ _).mpr ⟨?_,hd⟩
  rw [hrows]
  exact List.mem_map.mpr ⟨r,hr,if_pos rfl⟩

variable {p : UsageReservation → Bool} {c : UsageReservation → UsageReservation}

variable (hp : ∀ q ∈ s.reservations.rows, p q = decide (q.id = r.id))
include hp

theorem claim_rows (hc : ∀ q, (c q).id = q.id) : (s.updateReservations p c hc).2.reservations.rows =
      s.reservations.rows.map fun q => if q.id = r.id then c q else q := by
  apply List.map_congr_left
  intro q hq
  simp [hp q hq]

variable {actual : ReservationItem → ℤ} {g : Effect → ReservationItem → Effect}

/-- The reservation rows after a claim and the item loop. The claim rewrites
columns other than the key and the items. -/
theorem charge_rows (hc : ∀ q, (c q).id = q.id) (hci : ∀ q, (c q).items = q.items)
    (hg : IsChargeStep r.id actual g) (adj : List Adjustment) :
    (r.items.rows.foldl g ⟨(s.updateReservations p c hc).2,adj⟩).store.reservations.rows =
      s.reservations.rows.map fun q =>
        if q.id = r.id then {c q with items := chargeItems actual r.items.rows q.items} else q := by
  rw [hg.reservations r.items.rows ⟨(s.updateReservations p c hc).2,adj⟩,claim_rows hp hc,
    List.map_map]
  apply List.map_congr_left
  intro q _
  by_cases hid : q.id = r.id
  · simp [hid,hc,hci]
  · simp [hid]

theorem close_rows (hc : ∀ q, (c q).id = q.id) (hci : ∀ q, (c q).items = q.items)
    (hg : IsChargeStep r.id actual g) {f : UsageReservation → UsageReservation}
    (hf : ∀ q, (f q).id = q.id) :
    ((r.items.rows.foldl g ⟨(s.updateReservations p c hc).2,[]⟩).store.updateReservations
      (fun q => q.id = r.id) f hf).2.reservations.rows = s.reservations.rows.map fun q =>
        if q.id = r.id then f {c q with items := chargeItems actual r.items.rows q.items} else q := by
  simp only [Store.updateReservations,KeyedTable.update]
  have hloop := charge_rows hp hc hci hg []
  simp only [Store.updateReservations,KeyedTable.update] at hloop
  rw [hloop,List.map_map]
  apply List.map_congr_left
  intro q _
  by_cases hid : q.id = r.id
  · simp [hid,hc]
  · simp [hid]

omit hp

/-- The loop after a claim walks through the open items of the claimed row. -/
theorem claim_induction (hs : Settled s) (hr : r ∈ s.reservations.rows)
    (hopen : r.status = .reserved) (hp : ∀ q ∈ s.reservations.rows, p q = decide (q.id = r.id))
    {hc : ∀ q, (c q).id = q.id} (hci : ∀ q, (c q).items = q.items)
    (hg : IsChargeStep r.id actual g) {adj : List Adjustment} {I : Effect → Prop}
    (hstep : ∀ e q item, I e → q ∈ e.store.reservations.rows → q.id = r.id → item ∈ q.items.rows
      → item.actualDelta = none → I (g e item)) (h : I ⟨(s.updateReservations p c hc).2,adj⟩) :
    I (r.items.rows.foldl g ⟨(s.updateReservations p c hc).2,adj⟩) := by
  have hcr : c r ∈ (s.updateReservations p c hc).2.reservations.rows := by
    rw [claim_rows hp hc]
    exact List.mem_map.mpr ⟨r,hr,by simp⟩
  have hopenItems := open_items hs hr hopen
  exact hg.foldl_induction hstep r.items.rows _ hcr (hc r) r.items.nodup
    (fun i hi => ⟨by rw [hci]; exact hi,hopenItems i hi⟩) h

end Close

/-- One statement that leaves the limits, the keys of the reservations and the
items alone. -/
inductive Relabel : Store → Store → Prop
  | rows {s : Store} (p : UsageReservation → Bool) (f : UsageReservation → UsageReservation)
      (hf : ∀ r, (f r).id = r.id) (hitems : ∀ r, (f r).items = r.items) :
      Relabel s (s.updateReservations p f hf).2
  | lastUsed {s : Store} (keyId : String) (now : ℤ) : Relabel s (s.updateLastUsed keyId now)

theorem Books.relabel (h : Books s) (hst : ReflTransGen Relabel s t) : Books t := by
  induction hst with
  | refl => exact h
  | tail _ hstep ih =>
    cases hstep with
    | rows p f hf hitems => exact ih.of_same_items p f hf hitems
    | lastUsed keyId now => exact ih.updateLastUsed keyId now

/-- What a settlement, a release or one claim of the stale batch does: nothing,
or the claim `c` of an open reservation, the loop over its items, and the
statements after the loop. `d` is the closed row. -/
inductive Closing (s : Store) (adj : List Adjustment) (actual : ReservationItem → ℤ) : Effect → Prop
  | unchanged : Closing s adj actual ⟨s,adj⟩
  | closed {r : UsageReservation} {p : UsageReservation → Bool}
      {c d : UsageReservation → UsageReservation} {hc : ∀ q, (c q).id = q.id}
      {g : Effect → ReservationItem → Effect} {t : Store} (hr : r ∈ s.reservations.rows)
      (hopen : r.status = .reserved)
      (hp : ∀ q ∈ s.reservations.rows, p q = decide (q.id = r.id))
      (hci : ∀ q, (c q).items = q.items) (hg : IsChargeStep r.id actual g)
      (hlast : ReflTransGen Relabel
        (r.items.rows.foldl g ⟨(s.updateReservations p c hc).2,adj⟩).store t)
      (hrows : t.reservations.rows = s.reservations.rows.map fun q => if q.id = r.id then d q else q)
      (hterm : (d r).status.Terminal)
      (hitems : (d r).items = chargeItems actual r.items.rows r.items) :
      Closing s adj actual
        ⟨t,(r.items.rows.foldl g ⟨(s.updateReservations p c hc).2,adj⟩).adjustments⟩

section Closing
variable {s : Store} {adj : List Adjustment} {actual : ReservationItem → ℤ} {e : Effect}

theorem Closing.settled (h : Closing s adj actual e) (hs : Settled s) :
    Settled e.store ∧ Kept s e.store ∧ OpenedBefore s e.store := by
  cases h with
  | unchanged => exact ⟨hs,Kept.refl s,fun _ hr _ => hr⟩
  | closed hr hopen hp hci hg hlast hrows hterm hitems =>
    refine settled_of_close hs hr hopen hrows hterm ?_
    intro i hi
    rw [hitems] at hi
    exact chargeItems_isSome hi

theorem Closing.sound (h : Closing s adj actual e) (hb : Books s) (hs : Settled s)
    (ha : ∀ i, 0 ≤ actual i) (hadj : ∀ a ∈ adj, a.Sound) : Sound s e := by
  obtain ⟨hsettled,hkept,_⟩ := h.settled hs
  cases h with
  | unchanged => exact ⟨hb,hs,Kept.refl s,hadj⟩
  | closed hr hopen hp hci hg hlast hrows hterm hitems =>
    obtain ⟨hbooks,hsound⟩ := claim_induction hs hr hopen hp hci hg
      (I := fun e => Books e.store ∧ ∀ a ∈ e.adjustments, a.Sound)
      (fun e q item he hq hid hi ho =>
        ⟨by rw [hg.store,← hid]; exact he.1.chargeItem hq hi ho (ha item),
          hg.adjustments_sound he.1 hq hi ho (ha item) he.2⟩)
      ⟨hb.of_same_items _ _ _ hci,hadj⟩
    exact ⟨hbooks.relabel hlast,hsettled,hkept,hsound⟩

end Closing

/-- The columns the last statement of a settlement or release writes. -/
def closedRow (status : ReservationStatus)
    (inputTokens outputTokens cachedInputTokens costMicrodollars : Option ℤ) (now : ℤ)
    (r : UsageReservation) : UsageReservation :=
  {r with
    status := status
    inputTokens := inputTokens
    outputTokens := outputTokens
    cachedInputTokens := cachedInputTokens
    costMicrodollars := costMicrodollars
    updatedAt := now}

/-- The token counts of a request and what it is charged for them. -/
def SettleRequest.NonNegative (price : Pricing) (q : SettleRequest) : Prop :=
  0 ≤ q.inputTokens.getD 0 ∧ 0 ≤ q.outputTokens.getD 0 ∧ 0 ≤ q.cachedInputTokens.getD 0 ∧
    0 ≤ q.cost price

variable {price : Pricing} {q : SettleRequest}

theorem SettleRequest.actual_nonneg (hq : q.NonNegative price) (t : LimitType) :
    0 ≤ q.actual price t := by
  obtain ⟨hi,ho,-,hcost⟩ := hq
  cases t with
  | totalTokens => exact Int.add_nonneg hi ho
  | inputTokens => exact hi
  | outputTokens => exact ho
  | costUsd => exact hcost
  | credits => exact le_rfl

theorem claim_test (hr : r ∈ s.reservations.rows) {t : UsageReservation → Bool}
    (htest : t r = true) :
    ∀ q ∈ s.reservations.rows, (decide (q.id = r.id) && t q) = decide (q.id = r.id) := by
  intro q hq
  by_cases hid : q.id = r.id
  · obtain rfl := s.reservations.eq_of_key hq hr hid
    simp [htest]
  · simp [hid]

theorem settle_closing (price : Pricing) (q : SettleRequest) (status : ReservationStatus)
    (ht : status.Terminal) (now : ℤ) (s : Store) :
    Closing s [] (fun i => q.actual price i.limitType) (settle price q status now s) := by
  unfold settle
  cases hfind : s.reservations.find? q.reservationId with
  | none => exact .unchanged
  | some r =>
    obtain ⟨hr,hid⟩ := (KeyedTable.find?_eq_some _ _ _).mp hfind
    simp only []
    split_ifs with hstatus hclaim
    · exact .unchanged
    · exact .unchanged
    · rw [not_not] at hstatus
      rw [← hid]
      have hp := claim_test (t := fun q => decide (q.status = .reserved)) hr (by simp [hstatus])
      have hg := settleItem_isChargeStep r.id (q.actual price)
      have hrows := close_rows hp
        (c := fun q => {q with status := .settling,updatedAt := now}) (fun _ => rfl)
        (fun _ => rfl) hg (f := closedRow status q.inputTokens q.outputTokens q.cachedInputTokens
          (some (q.cost price)) now) (fun _ => rfl)
      exact .closed hr hstatus hp (fun _ => rfl) hg
        ((ReflTransGen.single (.rows _ _ _ fun _ => rfl)).tail (.lastUsed r.apiKeyId now))
        hrows ht rfl

theorem release_closing (id : String) (now : ℤ) (s : Store) :
    Closing s [] (fun _ => 0) (releaseUsageReservationOnce id now s) := by
  unfold releaseUsageReservationOnce
  cases hfind : s.reservations.find? id with
  | none => exact .unchanged
  | some r =>
    obtain ⟨hr,rfl⟩ := (KeyedTable.find?_eq_some _ _ _).mp hfind
    simp only []
    split_ifs with hstatus hclaim
    · exact .unchanged
    · exact .unchanged
    · rw [not_not] at hstatus
      have hp := claim_test (t := fun q => decide (q.status = .reserved)) hr (by simp [hstatus])
      have hg := releaseItem_isChargeStep r.id
      have hrows := close_rows hp
        (c := fun q => {q with status := .released,updatedAt := now}) (fun _ => rfl)
        (fun _ => rfl) hg (f := closedRow .released none none none none now) (fun _ => rfl)
      exact .closed hr hstatus hp (fun _ => rfl) hg (.single (.rows _ _ _ fun _ => rfl)) hrows
        trivial rfl

theorem itemsOf_eq (hr : r ∈ s.reservations.rows) : itemsOf s r.id = r.items.rows := by
  rw [itemsOf,(KeyedTable.find?_eq_some _ _ _).mpr ⟨hr,rfl⟩]

/-- One claim of a batch that read its items in `s`. -/
theorem releaseStaleOne_closing (cutoff now : ℤ) (hopened : OpenedBefore s e.store) (id : String) :
    Closing e.store e.adjustments (fun _ => 0) (releaseStaleOne cutoff now (itemsOf s) e id) := by
  unfold releaseStaleOne
  simp only []
  split_ifs with hclaim
  · exact .unchanged
  · rw [Bool.not_eq_false] at hclaim
    obtain ⟨r,hr,htest⟩ := List.any_eq_true.mp hclaim
    rw [Bool.and_eq_true,decide_eq_true_eq] at htest
    obtain ⟨rfl,hstale⟩ := htest
    have hopen : r.status = .reserved := by
      simp only [isStale,Bool.and_eq_true,decide_eq_true_eq] at hstale
      exact hstale.1
    rw [itemsOf_eq (hopened r hr hopen)]
    have hp := claim_test hr hstale
    have hg := releaseItem_isChargeStep r.id
    have hrows := charge_rows hp (c := closedRow .released none none none none now) (fun _ => rfl)
      (fun _ => rfl) hg e.adjustments
    exact .closed hr hopen hp (fun _ => rfl) hg .refl hrows trivial rfl

theorem settle_row (price : Pricing) (q : SettleRequest) (status : ReservationStatus) (now : ℤ)
    (hfind : s.reservations.find? q.reservationId = some r) (hopen : r.status = .reserved) :
    ∃ r', (settle price q status now s).store.reservations.find? q.reservationId = some r' ∧
      r'.status = status ∧ r'.inputTokens = q.inputTokens ∧ r'.outputTokens = q.outputTokens ∧
      r'.cachedInputTokens = q.cachedInputTokens := by
  obtain ⟨hr,hid⟩ := (KeyedTable.find?_eq_some _ _ _).mp hfind
  have hclaim : (s.transitionUsageReservationStatus q.reservationId .reserved .settling now).1 =
      true := List.any_eq_true.mpr ⟨r,hr,by simp [hid,hopen]⟩
  unfold settle
  simp only [hfind,hopen,hclaim,ne_eq,not_true,if_false,Bool.true_eq_false]
  rw [← hid]
  have hrows := close_rows (s := s)
    (p := fun q => q.id = r.id && q.status = .reserved) (claim_test hr (by simp [hopen]))
    (c := fun q => {q with status := .settling,updatedAt := now}) (fun _ => rfl) (fun _ => rfl)
    (settleItem_isChargeStep r.id (q.actual price))
    (f := closedRow status q.inputTokens q.outputTokens q.cachedInputTokens
      (some (q.cost price)) now) (fun _ => rfl)
  exact ⟨_,find?_closed hr rfl hrows,rfl,rfl,rfl,rfl⟩

theorem release_row (now : ℤ) (hfind : s.reservations.find? id = some r)
    (hopen : r.status = .reserved) :
    ∃ r', (releaseUsageReservationOnce id now s).store.reservations.find? id = some r' ∧
      r'.status = .released := by
  obtain ⟨hr,rfl⟩ := (KeyedTable.find?_eq_some _ _ _).mp hfind
  have hclaim : (s.transitionUsageReservationStatus r.id .reserved .released now).1 = true :=
    List.any_eq_true.mpr ⟨r,hr,by simp [hopen]⟩
  unfold releaseUsageReservationOnce
  simp only [hfind,hopen,hclaim,ne_eq,not_true,if_false,Bool.true_eq_false]
  have hrows := close_rows (s := s)
    (p := fun q => q.id = r.id && q.status = .reserved) (claim_test hr (by simp [hopen]))
    (c := fun q => {q with status := .released,updatedAt := now}) (fun _ => rfl) (fun _ => rfl)
    (releaseItem_isChargeStep r.id)
    (f := closedRow .released none none none none now) (fun _ => rfl)
  exact ⟨_,find?_closed hr rfl hrows,rfl⟩

theorem release_closed (now : ℤ) (hfind : s.reservations.find? id = some r)
    (hclosed : r.status ≠ .reserved) : (releaseUsageReservationOnce id now s).store = s := by
  unfold releaseUsageReservationOnce
  simp only [hfind]
  rw [if_pos hclosed]

end CodexLb.UsageLedger
