import CodexLb.LedgerStatements

/-!
# Bounded over-admission

A counter passes its cap only when a settlement reports more than was reserved,
so the excess of a row is at most what the settled reservations of its current
window used beyond their reserved amounts. A reservation that succeeds leaves
the rows it raised under their caps, and one that is rejected leaves nothing
behind but the window resets that were due.
-/
namespace CodexLb.UsageLedger
open LimitWindows Relation Runs KeyedTable

/-- What an item of the row's window was charged beyond its reserved amount. -/
def itemOverrun (l : ApiKeyLimit) (i : ReservationItem) : ℤ :=
  if inWindow l i then max 0 (i.charge-i.reservedDelta) else 0

def windowOverrun (s : Store) (l : ApiKeyLimit) : ℤ :=
  s.reservations.total fun r => r.items.total (itemOverrun l)

theorem itemOverrun_nonneg {l : ApiKeyLimit} (i : ReservationItem) : 0 ≤ itemOverrun l i := by
  unfold itemOverrun
  split_ifs
  · exact le_max_left 0 _
  · exact le_rfl

theorem itemOverrun_open {l : ApiKeyLimit} {i : ReservationItem} (h : i.actualDelta = none) :
    itemOverrun l i = 0 := by
  simp [itemOverrun,ReservationItem.charge,h]

theorem windowOverrun_nonneg (s : Store) (l : ApiKeyLimit) : 0 ≤ windowOverrun s l :=
  s.reservations.total_nonneg fun r _ => r.items.total_nonneg fun i _ => itemOverrun_nonneg i

variable {s t : Store} {l : ApiKeyLimit}

theorem windowOverrun_congr {k : ApiKeyLimit} (hres : t.reservations = s.reservations)
    (hid : k.id = l.id) (hr : k.resetAt = l.resetAt) : windowOverrun t k = windowOverrun s l := by
  have hitem : itemOverrun k = itemOverrun l := by
    funext i
    have hw : inWindow k i ↔ inWindow l i := by simp only [inWindow,hid,hr]
    simp only [itemOverrun,hw]
  rw [windowOverrun,windowOverrun,hres,hitem]

/-- No row is above its cap by more than the overrun of its window. -/
structure Capped (s : Store) : Prop where
  capped : ∀ l ∈ s.limits.rows, l.currentValue ≤ l.maxValue+windowOverrun s l
  floor : ∀ l ∈ s.limits.rows, 0 ≤ l.maxValue
  past : Past s

section Statements
variable {s t : Store}

theorem Capped.relabel (h : Capped s) (hst : Relabel s t) : Capped t := by
  cases hst with
  | lastUsed keyId now => exact ⟨h.capped,h.floor,h.past⟩
  | rows p f hf hitems =>
    have hsame : ∀ r, (if p r then f r else r).items = r.items := by
      intro r
      split_ifs
      · exact hitems r
      · rfl
    refine ⟨?_,h.floor,?_⟩
    · intro l hl
      have hcap := h.capped l hl
      simpa only [windowOverrun,Store.updateReservations,total_update,hsame] using hcap
    · refine Past.of_rows h.past (fun k hk => ⟨k,hk,rfl,le_rfl⟩) ?_
      intro r hr i hi
      obtain ⟨q,hq,rfl⟩ := exists_of_mem_update hr
      exact ⟨q,hq,i,hsame q ▸ hi,rfl,rfl⟩

variable {expectedResetAt : ℤ}

theorem Capped.resetLimit (h : Capped s) (limitId : ℕ) {newResetAt : ℤ}
    (hlt : expectedResetAt < newResetAt) :
    Capped (s.resetLimit limitId expectedResetAt newResetAt).2 := by
  refine ⟨?_,?_,Past.resetLimit h.past limitId hlt⟩
  · intro k hk
    have hover := windowOverrun_nonneg (s.resetLimit limitId expectedResetAt newResetAt).2 k
    obtain ⟨l,hl,rfl⟩ := exists_of_mem_update hk
    have hfloor := h.floor l hl
    split_ifs at hover ⊢
    · exact Int.add_nonneg hfloor hover
    · exact h.capped l hl
  · intro k hk
    obtain ⟨l,hl,rfl⟩ := exists_of_mem_update hk
    have hfloor := h.floor l hl
    split_ifs <;> exact hfloor

/-- The rows after a reservation statement: the old ones, or one that was
raised and is still under its cap. -/
theorem mem_tryReserveUsage {limitId : ℕ} {delta : ℤ} {k : ApiKeyLimit}
    (hk : k ∈ (s.tryReserveUsage limitId delta expectedResetAt).2.limits.rows) :
    ∃ l ∈ s.limits.rows, k.id = l.id ∧ k.resetAt = l.resetAt ∧ k.maxValue = l.maxValue ∧
      (k.currentValue = l.currentValue ∨ k.currentValue ≤ k.maxValue) := by
  unfold Store.tryReserveUsage at hk
  split_ifs at hk
  · exact ⟨k,hk,rfl,rfl,rfl,Or.inl rfl⟩
  · obtain ⟨l,hl,rfl⟩ := exists_of_mem_update hk
    refine ⟨l,hl,?_⟩
    split_ifs with hp
    · simp only [Bool.and_eq_true,decide_eq_true_eq] at hp
      exact ⟨rfl,rfl,rfl,Or.inr hp.2⟩
    · exact ⟨rfl,rfl,rfl,Or.inl rfl⟩

theorem tryReserveUsage_reservations (s : Store) (limitId : ℕ) (delta expectedResetAt : ℤ) :
    (s.tryReserveUsage limitId delta expectedResetAt).2.reservations = s.reservations := by
  unfold Store.tryReserveUsage
  split_ifs <;> rfl

theorem Capped.tryReserveUsage (h : Capped s) (limitId : ℕ) (delta expectedResetAt : ℤ) :
    Capped (s.tryReserveUsage limitId delta expectedResetAt).2 := by
  have hres := tryReserveUsage_reservations s limitId delta expectedResetAt
  refine ⟨?_,?_,?_⟩
  · intro k hk
    obtain ⟨l,hl,hid,hr,hmax,hcur⟩ := mem_tryReserveUsage hk
    have hcap := h.capped l hl
    have hover := windowOverrun_nonneg s l
    rw [windowOverrun_congr hres hid hr]
    omega
  · intro k hk
    obtain ⟨l,hl,_,_,hmax,_⟩ := mem_tryReserveUsage hk
    rw [hmax]
    exact h.floor l hl
  · apply h.past.of_rows
    · intro k hk
      obtain ⟨l,hl,hid,hr,_⟩ := mem_tryReserveUsage hk
      exact ⟨l,hl,hid,hr.ge⟩
    · intro r hr i hi
      rw [hres] at hr
      exact ⟨r,hr,i,hi,rfl,rfl⟩

theorem Capped.createUsageReservation (h : Capped s) {id keyId model : String}
    {items : List ReservationItem} {now : ℤ} (hfresh : ∀ i ∈ items, i.actualDelta = none)
    (hwindow : ∀ i ∈ items, ∀ l ∈ s.limits.rows, l.id = i.limitId → i.expectedResetAt = l.resetAt)
    (hc : s.createUsageReservation id keyId model items now = some t) : Capped t := by
  obtain ⟨hlimits,r,_,_,hitems,hrows⟩ := createUsageReservation_eq_some hc
  have hover : ∀ l, windowOverrun t l = windowOverrun s l := by
    intro l
    have hnew : r.items.total (itemOverrun l) = 0 :=
      r.items.total_eq_zero fun i hi => itemOverrun_open (hfresh i (hitems ▸ hi))
    simp only [windowOverrun,total,hrows,List.map_append,List.sum_append,List.map_cons,
      List.map_nil,List.sum_cons,List.sum_nil] at hnew ⊢
    omega
  refine ⟨?_,hlimits ▸ h.floor,?_⟩
  · intro l hl
    rw [hover]
    exact h.capped l (hlimits ▸ hl)
  · intro q hq i hi l hl hid
    rw [hlimits] at hl
    rw [hrows,List.mem_append,List.mem_singleton] at hq
    rcases hq with hq | rfl
    · exact h.past q hq i hi l hl hid
    · exact (hwindow i (hitems ▸ hi) l hl hid).le

/-- A charge moves the counter of a row in the item's window by at most what
it adds to the overrun of that window. -/
theorem Capped.chargeItem (h : Capped s) {r : UsageReservation} {item : ReservationItem} (a : ℤ)
    (hr : r ∈ s.reservations.rows) (hi : item ∈ r.items.rows) (hopen : item.actualDelta = none) :
    Capped (chargeItem s r.id item a) := by
  have hover : ∀ l, windowOverrun (UsageLedger.chargeItem s r.id item a) l =
      windowOverrun s l+(if inWindow l item then max 0 (a-item.reservedDelta) else 0) := by
    intro l
    have hsum := total_upsertReservationItemActual
      hr hi a (itemOverrun l)
    rw [itemOverrun_open hopen,Int.sub_zero] at hsum
    exact hsum
  refine ⟨?_,?_,Past.chargeItem h.past hr hi a⟩
  · intro k hk
    rw [hover]
    obtain ⟨l,hl,rfl⟩ := exists_of_mem_update hk
    have hcap := h.capped l hl
    split_ifs with hp hw hw
    · have hle := le_max_right 0 (a-item.reservedDelta)
      change l.currentValue+(a-item.reservedDelta) ≤ l.maxValue+(windowOverrun s l+_)
      omega
    · simp only [Bool.and_eq_true,decide_eq_true_eq] at hp
      exact absurd ⟨hp.1.1.symm,hp.1.2.symm⟩ hw
    · have hle := le_max_left 0 (a-item.reservedDelta)
      omega
    · omega
  · intro k hk
    obtain ⟨l,hl,rfl⟩ := exists_of_mem_update hk
    have hfloor := h.floor l hl
    split_ifs <;> exact hfloor

theorem Capped.statement (hst : Statement s t) (h : Capped s) : Capped t := by
  cases hst with
  | relabel hst => exact h.relabel hst
  | reset limitId hlt => exact h.resetLimit limitId hlt
  | raise limitId delta expectedResetAt => exact h.tryReserveUsage limitId delta expectedResetAt
  | create hfresh hwindow hc => exact h.createUsageReservation hfresh hwindow hc
  | charge a hr hi hopen => exact h.chargeItem a hr hi hopen

end Statements

def Within (limitId : ℕ) (s : Store) : Prop :=
  ∀ l ∈ s.limits.rows, l.id = limitId → l.currentValue ≤ l.maxValue

theorem Within.tryReserveUsage {limitId : ℕ} (h : Within limitId s) (id : ℕ)
    (delta expectedResetAt : ℤ) :
    Within limitId (s.tryReserveUsage id delta expectedResetAt).2 := by
  intro k hk hid
  obtain ⟨l,hl,hkl,_,hmax,hcur⟩ := mem_tryReserveUsage hk
  have hle := h l hl (hkl.symm.trans hid)
  omega

theorem Within.of_success {delta : ℤ} (hpos : 0 < delta)
    (hok : (s.tryReserveUsage l.id delta l.resetAt).1.success = true) :
    Within l.id (s.tryReserveUsage l.id delta l.resetAt).2 := by
  simp only [Store.tryReserveUsage,if_neg (not_le.mpr hpos)] at hok ⊢
  obtain ⟨m,hm,hpm⟩ := List.any_eq_true.mp hok
  have htest := hpm
  simp only [Bool.and_eq_true,decide_eq_true_eq] at htest
  intro k hk hid
  obtain ⟨q,hq,rfl⟩ := exists_of_mem_update hk
  have hqid : q.id = l.id := by split_ifs at hid <;> exact hid
  obtain rfl := s.limits.eq_of_key hq hm (hqid.trans htest.1.1.symm)
  rw [if_pos hpm]
  exact htest.2

section Loop
variable {price : Pricing} {req : LimitRequest} {budget : ℤ × ℤ}

variable {ls : List ApiKeyLimit} {items : List ReservationItem}

theorem Within.reserveItems {limitId : ℕ} {s t : Store} (h : Within limitId s)
    (hitems : reserveItems price req budget ls s = .ok (items,t)) : Within limitId t := by
  induction ls generalizing s items with
  | nil =>
    simp only [UsageLedger.reserveItems,Except.ok.injEq,Prod.mk.injEq] at hitems
    exact hitems.2 ▸ h
  | cons l ls ih =>
    rcases reserveItems_cons hitems with hitems | ⟨rest,_,⟨_,_,hitems⟩ | ⟨_,hitems⟩⟩
    · exact ih h hitems
    · exact ih (h.tryReserveUsage _ _ _) hitems
    · exact ih h hitems

theorem reserveItems_within {s t : Store} (h : reserveItems price req budget ls s = .ok (items,t))
    {i : ReservationItem} (hi : i ∈ items) (hpos : 0 < i.reservedDelta) : Within i.limitId t := by
  induction ls generalizing s items with
  | nil =>
    obtain ⟨rfl,_⟩ := h
    cases hi
  | cons l ls ih =>
    rcases reserveItems_cons h with h | ⟨rest,rfl,⟨hd,hok,h⟩ | ⟨hd,h⟩⟩
    · exact ih h hi
    · rcases List.mem_cons.mp hi with rfl | hi
      · exact (Within.of_success hd hok).reserveItems h
      · exact ih h hi
    · rcases List.mem_cons.mp hi with rfl | hi
      · exact absurd hpos (not_lt.mpr hd)
      · exact ih h hi

end Loop

variable {price : Pricing} {req : LimitRequest} {id : String} {now : ℤ}

theorem reserved_within {d : ReservationData}
    (h : enforceLimitsForRequestOnce price req id now s = (.ok d,t)) :
    ∃ r, t.reservations.find? d.reservationId = some r ∧
      ∀ i ∈ r.items.rows, 0 < i.reservedDelta → Within i.limitId t := by
  have hend := attempt price req id now s
  rw [h] at hend
  cases hend with
  | reserved hls hitems hcreate =>
    obtain ⟨hlimits,r,hid,_,hri,hrows⟩ := createUsageReservation_eq_some hcreate
    refine ⟨r,(find?_eq_some _ _ _).mpr ⟨by simp [hrows],hid⟩,?_⟩
    intro i hi hpos
    have hwithin := reserveItems_within hitems (hri ▸ hi) hpos
    rw [Within,hlimits]
    exact hwithin

/-- The row of a window that was due, at the start of its next window. -/
def rolled (now : ℤ) (l : ApiKeyLimit) : ApiKeyLimit :=
  {l with currentValue := 0,resetAt := advanceLimitReset l.resetAt now l.limitWindow}

theorem resetLimit_rows (hl : l ∈ s.limits.rows) (now : ℤ) :
    (s.resetLimit l.id l.resetAt (advanceLimitReset l.resetAt now l.limitWindow)).2.limits.rows =
      s.limits.rows.map fun k => if k = l then rolled now k else k := by
  apply List.map_congr_left
  intro k hk
  by_cases hkl : k = l
  · subst hkl
    simp [rolled]
  · have hid : k.id ≠ l.id := fun hid => hkl (s.limits.eq_of_key hk hl hid)
    simp [hkl,hid]

theorem lazyReset_rows (now : ℤ) {ls : List ApiKeyLimit} (hls : ∀ l ∈ ls, l ∈ s.limits.rows)
    (hnodup : (ls.map (·.id)).Nodup) :
    (lazyResetExpiredLimits now ls s).2.limits.rows = s.limits.rows.map fun l =>
      if l ∈ ls ∧ l.resetAt < now then rolled now l else l := by
  induction ls generalizing s with
  | nil => simp [lazyResetExpiredLimits]
  | cons l ls ih =>
    simp only [List.map_cons,List.nodup_cons] at hnodup
    have hl := hls l (by simp)
    rw [lazyResetExpiredLimits]
    split_ifs with hdue
    · rw [ih (fun k hk => hls k (by simp [hk])) hnodup.2]
      apply List.map_congr_left
      intro k _
      by_cases hkl : k = l
      · subst hkl
        simp [not_lt.mpr hdue]
      · simp [hkl]
    · have hrows := resetLimit_rows hl now
      have hne : ∀ k ∈ ls, k ≠ l := by
        rintro k hk rfl
        exact hnodup.1 (List.mem_map_of_mem hk)
      rw [ih ?_ hnodup.2,hrows,List.map_map]
      · apply List.map_congr_left
        intro k _
        by_cases hkl : k = l
        · subst hkl
          have hnot : rolled now k ∉ ls := fun hm => hnodup.1 (List.mem_map.mpr ⟨_,hm,rfl⟩)
          simp [hnot,not_le.mp hdue]
        · simp [hkl]
      · intro k hk
        rw [hrows]
        exact List.mem_map.mpr ⟨k,hls k (by simp [hk]),if_neg (hne k hk)⟩

theorem rejected_rows {message : String} {resetAt : ℤ}
    (h : enforceLimitsForRequestOnce price req id now s = (.error (.rateLimitExceeded message
      resetAt),t)) :
    t.limits.rows = s.limits.rows.map fun l =>
      if l.apiKeyId = req.keyId ∧ l.resetAt < now then rolled now l else l := by
  have hend := attempt price req id now s
  rw [h] at hend
  cases hend with
  | rejected e =>
    have hnodup : ((s.limitsOf req.keyId).map (·.id)).Nodup :=
      s.limits.nodup.sublist (List.filter_sublist.map _)
    have hread : ∀ l ∈ s.limitsOf req.keyId, l ∈ s.limits.rows :=
      fun l hl => (List.mem_filter.mp hl).1
    rw [lazyReset_rows now hread hnodup]
    apply List.map_congr_left
    intro l hl
    simp [Store.limitsOf,hl]

/-- Over the settled reservations of the row's window, what was used beyond
the reserved amounts. -/
def settledOverrun (s : Store) (l : ApiKeyLimit) : ℤ :=
  s.reservations.total fun r => if r.status.Terminal then
    r.items.total fun i => if inWindow l i then max 0 (i.actualDelta.getD 0-i.reservedDelta) else 0
    else 0

theorem settledOverrun_eq (hs : Settled s) {l : ApiKeyLimit} :
    settledOverrun s l = windowOverrun s l := by
  apply total_congr
  intro r hr
  rcases hs r hr with ⟨hopen,hnone⟩ | ⟨hterm,hsome⟩
  · have hnot : ¬ r.status.Terminal := by
      rw [hopen]
      exact id
    rw [if_neg hnot]
    exact (r.items.total_eq_zero fun i hi => itemOverrun_open (hnone i hi)).symm
  · rw [if_pos hterm]
    apply total_congr
    intro i hi
    obtain ⟨a,ha⟩ := Option.isSome_iff_exists.mp (hsome i hi)
    simp [itemOverrun,ReservationItem.charge,ha]

/-- From unused limits with the positive caps the schema demands, after every
run: no counter exceeds its cap by more than the settled overrun of its
window, the rows a reservation raises stay under their caps, and a rejected
reservation changes no row of the key except by a window reset that was due. -/
theorem admission_bounded {price : Pricing} {s t : Store} {txs : List Transaction} (hs : Fresh s)
    (hmax : ∀ l ∈ s.limits.rows, 1 ≤ l.maxValue) (h : Run (commitStep price) s txs t) :
    (∀ l ∈ t.limits.rows, l.currentValue-l.maxValue ≤ settledOverrun t l) ∧
    (∀ req id now d u, enforceLimitsForRequestOnce price req id now t = (.ok d,u) →
      ∃ r, u.reservations.find? d.reservationId = some r ∧ ∀ i ∈ r.items.rows,
        0 < i.reservedDelta → ∀ l ∈ u.limits.rows, l.id = i.limitId →
          l.currentValue ≤ l.maxValue) ∧
    (∀ req id now message resetAt u, enforceLimitsForRequestOnce price req id now t =
        (.error (.rateLimitExceeded message resetAt),u) →
      u.limits.rows = t.limits.rows.map fun l =>
        if l.apiKeyId = req.keyId ∧ l.resetAt < now then rolled now l else l) := by
  obtain ⟨hsettled,hst⟩ := run_statements h hs.settled
  refine ⟨?_,fun _ _ _ _ _ hok => reserved_within hok,fun _ _ _ _ _ _ hrej => rejected_rows hrej⟩
  have hstart : Capped s := by
    refine ⟨?_,fun l hl => (zero_le_one' ℤ).trans (hmax l hl),hs.books.past⟩
    intro l hl
    have hover := windowOverrun_nonneg s l
    have hcap := hmax l hl
    rw [hs.unused l hl]
    omega
  have hend := statements_induction (fun _ _ => Capped.statement) hst hstart
  intro l hl
  have hcap := hend.capped l hl
  rw [settledOverrun_eq hsettled]
  omega

def tightStore : Store where
  apiKeys := meteredStore.apiKeys
  limits := ⟨[⟨1,"k",.totalTokens,.daily,100,0,none,1000⟩],by decide⟩
  reservations := empty

def tightRun : List Transaction :=
  [.reserve ⟨"k",some "m",none,none⟩ "r" 10,
    .finalize ⟨"r","m",some 90,some 60,none,none⟩ 20]

def tightEnd : Store := tightRun.foldl (fun s tx => (tx.commit zeroPrice s).store) tightStore

theorem overrun_bounds_counter :
    tightEnd.limits.rows.map (fun l => (l.currentValue,l.maxValue)) = [(150,100)] ∧
      ∀ l ∈ tightEnd.limits.rows, l.currentValue-l.maxValue ≤ settledOverrun tightEnd l :=
  ⟨by decide,(@admission_bounded zeroPrice tightStore tightEnd tightRun ⟨rfl,by decide⟩
    (by decide) (.step rfl (.step rfl (.done _)))).1⟩

end CodexLb.UsageLedger
