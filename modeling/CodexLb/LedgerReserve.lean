import CodexLb.LedgerBooks

/-!
# Reserving keeps the books

The reservation loop raises counters before the reservation row exists. Its
specification says by how much: each counter by the charges of the items
collected so far. Creating the row then closes the books again.
-/
namespace CodexLb.UsageLedger
open LimitWindows

theorem normalizeTokenBudget_nonneg {v : Option ℤ} {d : ℤ} (hd : 0 ≤ d) :
    0 ≤ normalizeTokenBudget v d := by
  cases v with
  | none => exact hd
  | some v => exact le_max_left 0 _

theorem normalizeRequestUsageBudget_nonneg (b : Option UsageBudget) :
    0 ≤ (normalizeRequestUsageBudget b).1 ∧ 0 ≤ (normalizeRequestUsageBudget b).2 := by
  cases b with
  | none => decide
  | some b =>
    exact ⟨normalizeTokenBudget_nonneg (by decide),normalizeTokenBudget_nonneg (by decide)⟩

variable {i o : ℤ}

theorem unknownModelReserveCostBudget_nonneg : 0 ≤ unknownModelReserveCostBudget i o := by
  unfold unknownModelReserveCostBudget unknownModelMicrodollars unknownModelBaseTokens maxTokenBudget
  simp only []
  split_ifs <;> omega

theorem reserveCostBudget_nonneg {model tier : Option String} :
    0 ≤ reserveCostBudget price model tier i o := by
  unfold reserveCostBudget
  cases model with
  | none => exact unknownModelReserveCostBudget_nonneg
  | some m =>
    simp only []
    split_ifs with hm hcost
    · exact unknownModelReserveCostBudget_nonneg
    · exact hcost.le
    · exact unknownModelReserveCostBudget_nonneg

variable {budget : ℤ × ℤ}

theorem reserveDeltaForLimit_nonneg (price : Pricing) (req : LimitRequest)
    (hb : 0 ≤ budget.1 ∧ 0 ≤ budget.2) (l : ApiKeyLimit) :
    0 ≤ reserveDeltaForLimit price req budget l := by
  have hbudget : 0 ≤ reserveBudgetForLimitType price req budget l.limitType := by
    cases l.limitType with
    | totalTokens => exact Int.add_nonneg hb.1 hb.2
    | inputTokens => exact hb.1
    | outputTokens => exact hb.2
    | costUsd => exact reserveCostBudget_nonneg
    | credits => exact le_rfl
  unfold reserveDeltaForLimit
  simp only []
  split_ifs with h
  · exact le_rfl
  · exact le_min (not_le.mp h).le hbudget

/-- The part of a counter that items without a reservation row account for. -/
def pendingCharge (items : List ReservationItem) (l : ApiKeyLimit) : ℤ :=
  (items.map (itemCharge l)).sum

variable {l k : ApiKeyLimit}

theorem pendingCharge_congr (hid : k.id = l.id) (hr : k.resetAt = l.resetAt) :
    pendingCharge items k = pendingCharge items l := by
  unfold pendingCharge
  rw [List.map_congr_left fun i _ => itemCharge_congr hid hr i]

/-- The rows of the second store are those of the first with some of their
counters raised by the items. -/
def Raised (items : List ReservationItem) (s t : Store) : Prop :=
  t.reservations = s.reservations ∧ ∀ k ∈ t.limits.rows, ∃ l ∈ s.limits.rows,
    k.id = l.id ∧ k.resetAt = l.resetAt ∧ k.currentValue = l.currentValue+pendingCharge items l

theorem Raised.refl (s : Store) : Raised [] s s :=
  ⟨rfl,fun k hk => ⟨k,hk,rfl,rfl,by simp [pendingCharge]⟩⟩

variable {items : List ReservationItem} {s t u : Store}

theorem Raised.cons {item : ReservationItem} (h : Raised [item] s t) (k : Raised items t u) :
    Raised (item::items) s u := by
  refine ⟨k.1.trans h.1,?_⟩
  intro c hc
  obtain ⟨b,hb,hid,hr,hv⟩ := k.2 c hc
  obtain ⟨a,ha,hid',hr',hv'⟩ := h.2 b hb
  refine ⟨a,ha,hid.trans hid',hr.trans hr',?_⟩
  rw [hv,hv',pendingCharge_congr hid' hr']
  simp only [pendingCharge,List.map_cons,List.map_nil,List.sum_cons,List.sum_nil]
  omega

variable {delta : ℤ}

/-- A successful statement has raised the one row in the item's window; the
compare-and-set on `reset_at` and the cap left no other way to succeed. -/
theorem raised_tryReserveUsage (hpos : 0 < delta)
    (hok : (s.tryReserveUsage l.id delta l.resetAt).1.success = true) :
    Raised [⟨l.id,l.limitType,delta,l.resetAt,none⟩] s (s.tryReserveUsage l.id delta l.resetAt).2 := by
  simp only [Store.tryReserveUsage,if_neg (not_le.mpr hpos)] at hok ⊢
  obtain ⟨m,hm,hpm⟩ := List.any_eq_true.mp hok
  refine ⟨rfl,?_⟩
  intro k hk
  obtain ⟨q,hq,rfl⟩ := KeyedTable.exists_of_mem_update hk
  refine ⟨q,hq,?_⟩
  by_cases hid : q.id = l.id
  · have hmid : m.id = l.id := by
      simp only [Bool.and_eq_true,decide_eq_true_eq] at hpm
      exact hpm.1.1
    obtain rfl := s.limits.eq_of_key hq hm (hid.trans hmid.symm)
    rw [if_pos hpm]
    simp only [Bool.and_eq_true,decide_eq_true_eq] at hpm
    simp [pendingCharge,itemCharge,inWindow,ReservationItem.charge,hpm.1.1,hpm.1.2]
  · simp [pendingCharge,itemCharge,inWindow,hid,Ne.symm hid]

theorem raised_zero : Raised [⟨l.id,l.limitType,0,l.resetAt,none⟩] s s :=
  ⟨rfl,fun k hk => ⟨k,hk,rfl,rfl,by simp [pendingCharge,itemCharge,ReservationItem.charge]⟩⟩

structure Collected (ls : List ApiKeyLimit) (items : List ReservationItem) : Prop where
  ids : (items.map (·.limitId)).Sublist (ls.map (·.id))
  fresh : ∀ i ∈ items, 0 ≤ i.reservedDelta ∧ i.actualDelta = none
  window : ∀ i ∈ items, ∃ l ∈ ls, i.limitId = l.id ∧ i.expectedResetAt = l.resetAt

theorem Collected.nil : Collected [] [] := ⟨List.Sublist.slnil,by simp,by simp⟩

variable {ls : List ApiKeyLimit}

theorem Collected.skip (h : Collected ls items) (l : ApiKeyLimit) : Collected (l::ls) items := by
  refine ⟨h.ids.cons l.id,h.fresh,?_⟩
  intro i hi
  obtain ⟨k,hk,hw⟩ := h.window i hi
  exact ⟨k,List.mem_cons_of_mem l hk,hw⟩

theorem Collected.take (h : Collected ls items) (l : ApiKeyLimit) (hd : 0 ≤ delta) :
    Collected (l::ls) (⟨l.id,l.limitType,delta,l.resetAt,none⟩::items) := by
  refine ⟨h.ids.cons_cons l.id,?_,?_⟩
  · intro i hi
    rcases List.mem_cons.mp hi with rfl | hi
    · exact ⟨hd,rfl⟩
    · exact h.fresh i hi
  · intro i hi
    rcases List.mem_cons.mp hi with rfl | hi
    · exact ⟨l,by simp,rfl,rfl⟩
    · exact (h.skip l).window i hi

variable {price : Pricing} {req : LimitRequest}

/-- One turn of the loop that did not end in an error: the limit was skipped,
or it gave an item and, if there was something to reserve, a raised counter. -/
theorem reserveItems_cons (h : reserveItems price req budget (l::ls) s = .ok (items,t)) :
    reserveItems price req budget ls s = .ok (items,t) ∨
      ∃ rest, items =
          ⟨l.id,l.limitType,reserveDeltaForLimit price req budget l,l.resetAt,none⟩::rest ∧
        ((0 < reserveDeltaForLimit price req budget l ∧
            (s.tryReserveUsage l.id (reserveDeltaForLimit price req budget l) l.resetAt).1.success =
              true ∧
            reserveItems price req budget ls
              (s.tryReserveUsage l.id (reserveDeltaForLimit price req budget l) l.resetAt).2 =
                .ok (rest,t)) ∨
          (reserveDeltaForLimit price req budget l ≤ 0 ∧
            reserveItems price req budget ls s = .ok (rest,t))) := by
  rw [reserveItems] at h
  generalize reserveDeltaForLimit price req budget l = delta at h ⊢
  by_cases happ : limitAppliesForRequest l req.model = false
  · rw [if_pos happ] at h
    exact Or.inl h
  rw [if_neg happ] at h
  by_cases hfull : l.maxValue ≤ l.currentValue
  · simp [hfull] at h
  right
  by_cases hpos : 0 < delta
  · simp only [if_pos hpos] at h
    split_ifs at h with hfail
    split at h
    · cases h
    · rename_i rest u hrest
      obtain ⟨rfl,rfl⟩ := h
      exact ⟨rest,rfl,Or.inl ⟨hpos,by simpa using hfail,hrest⟩⟩
  · simp only [if_neg hpos] at h
    split_ifs at h with hfail
    split at h
    · cases h
    · rename_i rest u hrest
      obtain ⟨rfl,rfl⟩ := h
      exact ⟨rest,rfl,Or.inr ⟨not_lt.mp hpos,hrest⟩⟩

theorem reserveItems_spec (hb : 0 ≤ budget.1 ∧ 0 ≤ budget.2)
    (h : reserveItems price req budget ls s = .ok (items,t)) :
    Raised items s t ∧ Collected ls items := by
  induction ls generalizing s items with
  | nil =>
    simp only [reserveItems,Except.ok.injEq,Prod.mk.injEq] at h
    obtain ⟨rfl,rfl⟩ := h
    exact ⟨Raised.refl s,Collected.nil⟩
  | cons l ls ih =>
    have hdelta := reserveDeltaForLimit_nonneg price req hb l
    rcases reserveItems_cons h with h | ⟨rest,rfl,⟨hpos,hok,h⟩ | ⟨hle,h⟩⟩
    · obtain ⟨hraise,hcoll⟩ := ih h
      exact ⟨hraise,hcoll.skip l⟩
    · obtain ⟨hraise,hcoll⟩ := ih h
      exact ⟨(raised_tryReserveUsage hpos hok).cons hraise,hcoll.take l hdelta⟩
    · obtain ⟨hraise,hcoll⟩ := ih h
      refine ⟨?_,hcoll.take l hdelta⟩
      rw [le_antisymm hle hdelta]
      exact (raised_zero).cons hraise

theorem Collected.window_eq (hcoll : Collected ls items) (hls : ∀ l ∈ ls, l ∈ s.limits.rows)
    (hraise : Raised items s t) {i : ReservationItem} (hi : i ∈ items) (hk : k ∈ t.limits.rows)
    (hid : k.id = i.limitId) : i.expectedResetAt = k.resetAt := by
  obtain ⟨l,hl,hkl,hreset,_⟩ := hraise.2 k hk
  obtain ⟨m,hm,hmid,hmr⟩ := hcoll.window i hi
  obtain rfl : l = m := s.limits.eq_of_key hl (hls m hm) (hkl.symm.trans (hid.trans hmid))
  exact hmr.trans hreset.symm

variable {keyId : String} {now : ℤ} {id model : String}

theorem createUsageReservation_eq_some
    (h : t.createUsageReservation id keyId model items now = some u) :
    u.limits = t.limits ∧ ∃ r : UsageReservation, r.id = id ∧ r.status = .reserved ∧
      r.items.rows = items ∧ u.reservations.rows = t.reservations.rows++[r] := by
  unfold Store.createUsageReservation at h
  split_ifs at h
  simp only [Option.some.injEq] at h
  subst h
  exact ⟨rfl,_,rfl,rfl,rfl,rfl⟩

/-- The reservation row takes over what the loop had raised. -/
theorem Books.createUsageReservation (h : Books s) (hls : ∀ l ∈ ls, l ∈ s.limits.rows)
    (hraise : Raised items s t) (hcoll : Collected ls items)
    (hc : t.createUsageReservation id keyId model items now = some u) : Books u := by
  obtain ⟨hlimits,c,_,_,hitems,hrows⟩ := createUsageReservation_eq_some hc
  have hmem : ∀ r ∈ u.reservations.rows, r ∈ s.reservations.rows ∨ r = c := by
    intro r hr
    rw [hrows,hraise.1] at hr
    simpa using hr
  refine ⟨?_,?_,?_⟩
  · intro k hk
    rw [hlimits] at hk
    obtain ⟨l,hl,hid,hr,hv⟩ := hraise.2 k hk
    have hold : windowCharge t k = windowCharge s l := windowCharge_congr hraise.1 hid hr
    have hnew : pendingCharge items k = pendingCharge items l := pendingCharge_congr hid hr
    have hbal := h.balanced l hl
    have hsum : windowCharge u k = windowCharge t k+pendingCharge items k := by
      simp [windowCharge,KeyedTable.total,pendingCharge,hrows,hitems]
    omega
  · intro r hr i hi
    rcases hmem r hr with hr | rfl
    · exact h.nonneg r hr i hi
    · obtain ⟨hd,hnone⟩ := hcoll.fresh i (hitems ▸ hi)
      exact ⟨hd,by simpa [ReservationItem.charge,hnone] using hd⟩
  · intro r hr i hi k hk hkid
    rw [hlimits] at hk
    rcases hmem r hr with hr | rfl
    · obtain ⟨l,hl,hid,hreset,_⟩ := hraise.2 k hk
      rw [hreset]
      exact h.past r hr i hi l hl (hid.symm.trans hkid)
    · exact (hcoll.window_eq hls hraise (hitems ▸ hi) hk hkid).le

theorem lazyResetExpiredLimits_of_false (h : (lazyResetExpiredLimits now ls s).1 = false) :
    (lazyResetExpiredLimits now ls s).2 = s := by
  induction ls with
  | nil => rfl
  | cons l ls ih =>
    rw [lazyResetExpiredLimits] at h ⊢
    split_ifs at h ⊢
    exact ih h

theorem mem_limits_of_read
    (h : l ∈ (if (lazyResetExpiredLimits now (s.limitsOf keyId) s).1 then (lazyResetExpiredLimits
      now (s.limitsOf keyId) s).2.limitsOf keyId else s.limitsOf keyId)) :
    l ∈ (lazyResetExpiredLimits now (s.limitsOf keyId) s).2.limits.rows := by
  split_ifs at h with hflag
  · exact (List.mem_filter.mp h).1
  · rw [lazyResetExpiredLimits_of_false (Bool.not_eq_true _ ▸ hflag)]
    exact (List.mem_filter.mp h).1

/-- The ways a reservation attempt can end: refused before the limits are
looked at, rejected after the due windows were reset, or reserved. -/
inductive Attempt (price : Pricing) (req : LimitRequest) (id : String) (now : ℤ) (s : Store) :
    Except ApiKeyError ReservationData × Store → Prop
  | refused (message : String) : Attempt price req id now s (.error (.invalid message),s)
  | rejected (e : ApiKeyError) : Attempt price req id now s
      (.error e,(lazyResetExpiredLimits now (s.limitsOf req.keyId) s).2)
  | reserved {ls : List ApiKeyLimit} {items : List ReservationItem} {t u : Store}
      (hls : ∀ l ∈ ls, l ∈ (lazyResetExpiredLimits now (s.limitsOf req.keyId) s).2.limits.rows)
      (hitems : reserveItems price req (normalizeRequestUsageBudget req.budget) ls
        (lazyResetExpiredLimits now (s.limitsOf req.keyId) s).2 = .ok (items,t))
      (hcreate : t.createUsageReservation id req.keyId (req.model.getD "") items now = some u) :
      Attempt price req id now s (.ok ⟨id,req.keyId,req.model.getD ""⟩,u)

variable {e : ApiKeyError}

theorem ensureValidApiKeyRow_error {row : Option ApiKey} (h : ensureValidApiKeyRow row = .error e) :
    ∃ message, e = .invalid message := by
  cases row with
  | none => exact ⟨_,(Except.error.inj h).symm⟩
  | some row =>
    rw [ensureValidApiKeyRow] at h
    split_ifs at h
    exact ⟨_,(Except.error.inj h).symm⟩

theorem checkNotExpired_error {row : ApiKey} (h : checkNotExpired row now = .error e) :
    ∃ message, e = .invalid message := by
  unfold checkNotExpired at h
  split at h
  · split_ifs at h
    exact ⟨_,(Except.error.inj h).symm⟩
  · cases h

theorem attempt (price : Pricing) (req : LimitRequest) (id : String) (now : ℤ) (s : Store) :
    Attempt price req id now s (enforceLimitsForRequestOnce price req id now s) := by
  unfold enforceLimitsForRequestOnce
  cases hrow : ensureValidApiKeyRow (s.apiKeys.find? req.keyId) with
  | error e =>
    obtain ⟨m,rfl⟩ := ensureValidApiKeyRow_error hrow
    exact .refused m
  | ok row =>
  simp only []
  cases hexp : checkNotExpired row now with
  | error e =>
    obtain ⟨m,rfl⟩ := checkNotExpired_error hexp
    exact .refused m
  | ok _ =>
  cases (if (lazyResetExpiredLimits now (s.limitsOf req.keyId) s).1
      then ensureValidApiKeyRow ((lazyResetExpiredLimits now (s.limitsOf req.keyId) s).2.apiKeys.find?
        req.keyId) else .ok row) with
  | error e => exact .rejected e
  | ok refreshed =>
  simp only []
  cases checkNotExpired refreshed now with
  | error e => exact .rejected e
  | ok _ =>
  simp only []
  split
  · exact .rejected _
  · rename_i items t hitems
    cases hcreate : t.createUsageReservation id req.keyId (req.model.getD "") items now with
    | none => exact .rejected _
    | some u => exact .reserved (fun l hl => mem_limits_of_read hl) hitems hcreate

/-- A reservation attempt leaves the reservations alone or adds one open row
without actual amounts. -/
theorem enforceLimitsForRequestOnce_reservations (price : Pricing) (req : LimitRequest)
    (id : String) (now : ℤ) (s : Store) :
    (enforceLimitsForRequestOnce price req id now s).2.reservations = s.reservations ∨
      ∃ r : UsageReservation, r.status = .reserved ∧ (∀ i ∈ r.items.rows, i.actualDelta = none) ∧
        (enforceLimitsForRequestOnce price req id now s).2.reservations.rows =
          s.reservations.rows++[r] := by
  have hres := lazyResetExpiredLimits_reservations now (s.limitsOf req.keyId) s
  have hend := attempt price req id now s
  generalize enforceLimitsForRequestOnce price req id now s = result at hend
  cases hend with
  | refused m => exact Or.inl rfl
  | rejected e => exact Or.inl hres
  | reserved hls hitems hcreate =>
    obtain ⟨hraise,hcoll⟩ :=
      reserveItems_spec (normalizeRequestUsageBudget_nonneg req.budget) hitems
    obtain ⟨_,r,_,hstatus,hri,hrows⟩ := createUsageReservation_eq_some hcreate
    refine Or.inr ⟨r,hstatus,?_,?_⟩
    · exact fun i hi => (hcoll.fresh i (hri ▸ hi)).2
    · rw [hrows,hraise.1,hres]

theorem Books.enforceLimitsForRequestOnce (price : Pricing) (req : LimitRequest) (id : String)
    (now : ℤ) (h : Books s) : Books (enforceLimitsForRequestOnce price req id now s).2 := by
  have hlazy := h.lazyResetExpiredLimits now (s.limitsOf req.keyId)
  have hend := attempt price req id now s
  generalize UsageLedger.enforceLimitsForRequestOnce price req id now s = result at hend
  cases hend with
  | refused m => exact h
  | rejected e => exact hlazy
  | reserved hls hitems hcreate =>
    obtain ⟨hraise,hcoll⟩ :=
      reserveItems_spec (normalizeRequestUsageBudget_nonneg req.budget) hitems
    exact hlazy.createUsageReservation hls hraise hcoll hcreate

end CodexLb.UsageLedger
