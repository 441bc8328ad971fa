import CodexLb.LedgerConservation

/-!
# A transaction is a sequence of statements

Every transaction of the ledger changes the store through five kinds of
statement: relabelling a row, resetting a window, raising a counter under its
cap, creating a reservation, and charging one open item. What holds after
every such statement holds after every transaction and so along every run,
whatever the reported amounts and prices are.
-/
namespace CodexLb.UsageLedger
open LimitWindows Relation Runs

inductive Statement : Store → Store → Prop
  | relabel {s t : Store} (h : Relabel s t) : Statement s t
  | reset {s : Store} (limitId : ℕ) {expectedResetAt newResetAt : ℤ}
      (hlt : expectedResetAt < newResetAt) :
      Statement s (s.resetLimit limitId expectedResetAt newResetAt).2
  | raise {s : Store} (limitId : ℕ) (delta expectedResetAt : ℤ) :
      Statement s (s.tryReserveUsage limitId delta expectedResetAt).2
  | create {s u : Store} {id keyId model : String} {items : List ReservationItem} {now : ℤ}
      (hfresh : ∀ i ∈ items, i.actualDelta = none)
      (hwindow : ∀ i ∈ items, ∀ l ∈ s.limits.rows, l.id = i.limitId → i.expectedResetAt = l.resetAt)
      (h : s.createUsageReservation id keyId model items now = some u) : Statement s u
  | charge {s : Store} {r : UsageReservation} {item : ReservationItem} (a : ℤ)
      (hr : r ∈ s.reservations.rows) (hi : item ∈ r.items.rows) (hopen : item.actualDelta = none) :
      Statement s (chargeItem s r.id item a)

variable {s t : Store}

theorem statements_induction {I : Store → Prop} (hstep : ∀ s t, Statement s t → I s → I t)
    (h : ReflTransGen Statement s t) (hs : I s) : I t := by
  induction h with
  | refl => exact hs
  | tail _ hst ih => exact hstep _ _ hst ih

theorem lazyReset_statements (now : ℤ) (ls : List ApiKeyLimit) (s : Store) :
    ReflTransGen Statement s (lazyResetExpiredLimits now ls s).2 := by
  induction ls generalizing s with
  | nil => exact .refl
  | cons l ls ih =>
    rw [lazyResetExpiredLimits]
    split_ifs with hdue
    · exact ih s
    · exact .head (.reset l.id (lt_advanceLimitReset l.limitWindow (not_le.mp hdue))) (ih _)

variable {now : ℤ}

theorem resetExpired_statements : ReflTransGen Statement s (resetExpiredBatch now s) := by
  have aux : ∀ (ls : List ApiKeyLimit) (t : Store), (∀ l ∈ ls, l.resetAt < now) →
      ReflTransGen Statement t (ls.foldl (fun t l =>
        (t.resetLimit l.id l.resetAt (advanceLimitReset l.resetAt now l.limitWindow)).2) t) := by
    intro ls
    induction ls with
    | nil => intro t _; exact .refl
    | cons l ls ih =>
      intro t hls
      exact .head (.reset l.id (lt_advanceLimitReset l.limitWindow (hls l (by simp))))
        (ih _ fun k hk => hls k (by simp [hk]))
  exact aux _ s fun l hl => resetAt_lt_of_mem_expiredLimits hl

variable {price : Pricing} {req : LimitRequest}

theorem reserveItems_statements {budget : ℤ × ℤ} {ls : List ApiKeyLimit}
    {items : List ReservationItem} (h : reserveItems price req budget ls s = .ok (items,t)) :
    ReflTransGen Statement s t := by
  induction ls generalizing s items with
  | nil =>
    simp only [reserveItems,Except.ok.injEq,Prod.mk.injEq] at h
    rw [h.2]
  | cons l ls ih =>
    rcases reserveItems_cons h with h | ⟨rest,_,⟨_,_,h⟩ | ⟨_,h⟩⟩
    · exact ih h
    · exact .head (.raise l.id _ l.resetAt) (ih h)
    · exact ih h

theorem reserve_statements {id : String} :
    ReflTransGen Statement s (enforceLimitsForRequestOnce price req id now s).2 := by
  have hlazy := lazyReset_statements now (s.limitsOf req.keyId) s
  have hend := attempt price req id now s
  generalize enforceLimitsForRequestOnce price req id now s = result at hend
  cases hend with
  | refused m => exact .refl
  | rejected e => exact hlazy
  | reserved hls hitems hcreate =>
    obtain ⟨hraise,hcoll⟩ :=
      reserveItems_spec (normalizeRequestUsageBudget_nonneg req.budget) hitems
    refine (hlazy.trans (reserveItems_statements hitems)).tail (.create ?_ ?_ hcreate)
    · exact fun i hi => (hcoll.fresh i hi).2
    · exact fun i hi l hl hid => hcoll.window_eq hls hraise hi hl hid

theorem Closing.statements {adj : List Adjustment} {actual : ReservationItem → ℤ} {e : Effect}
    (h : Closing s adj actual e) (hs : Settled s) : ReflTransGen Statement s e.store := by
  cases h with
  | unchanged => exact .refl
  | closed hr hopen hp hci hg hlast hrows hterm hitems =>
    refine ReflTransGen.trans ?_ (ReflTransGen.mono (fun _ _ h => Statement.relabel h) _ _ hlast)
    refine claim_induction hs hr hopen hp hci hg (I := fun e => ReflTransGen Statement s e.store) ?_
      (.single (.relabel (.rows _ _ _ hci)))
    intro e q item he hq hid hi ho
    rw [hg.store,← hid]
    exact he.tail (.charge _ hq hi ho)

theorem releaseStale_statements {cutoff : ℤ} {batchSize : ℕ} (hs : Settled s) :
    Settled (releaseStaleBatch cutoff batchSize now s).store ∧
      ReflTransGen Statement s (releaseStaleBatch cutoff batchSize now s).store := by
  have aux : ∀ (ids : List String) (e : Effect), Settled e.store → OpenedBefore s e.store →
      ReflTransGen Statement s e.store →
      Settled (ids.foldl (releaseStaleOne cutoff now (itemsOf s)) e).store ∧
        ReflTransGen Statement s (ids.foldl (releaseStaleOne cutoff now (itemsOf s)) e).store := by
    intro ids
    induction ids with
    | nil => exact fun e he _ hst => ⟨he,hst⟩
    | cons id ids ih =>
      intro e he hopened hst
      have hclose := releaseStaleOne_closing cutoff now hopened id
      obtain ⟨hsettled,_,hbefore⟩ := hclose.settled he
      exact ih _ hsettled (fun q hq hqo => hopened q (hbefore q hq hqo) hqo)
        (hst.trans (hclose.statements he))
  exact aux _ ⟨s,[]⟩ hs (fun _ hr _ => hr) .refl

theorem commit_statements (hs : Settled s) {tx : Transaction} :
    Settled (tx.commit price s).store ∧ ReflTransGen Statement s (tx.commit price s).store := by
  cases tx with
  | reserve req id now =>
    refine ⟨?_,reserve_statements⟩
    exact hs.enforceLimitsForRequestOnce price req id now
  | finalize q now =>
    have hclose := settle_closing price q .finalized trivial now s
    exact ⟨(hclose.settled hs).1,hclose.statements hs⟩
  | fail q now =>
    have hclose := settle_closing price q .failed trivial now s
    exact ⟨(hclose.settled hs).1,hclose.statements hs⟩
  | release id now =>
    have hclose := release_closing id now s
    exact ⟨(hclose.settled hs).1,hclose.statements hs⟩
  | releaseStale cutoff batchSize now => exact releaseStale_statements hs
  | resetLimit read now =>
    exact ⟨hs.of_reservations (lazyResetExpiredLimits_reservations now [read] s),
      lazyReset_statements now [read] s⟩
  | resetExpired now =>
    exact ⟨hs.of_reservations (foldl_resetLimit_reservations now (expiredLimits now s) s),
      resetExpired_statements⟩
  | touch id now =>
    exact ⟨hs.touchUsageReservation id now,.single (.relabel (.rows _ _ _ fun _ => rfl))⟩

/-- A committed transaction, whatever amounts it reports. -/
def commitStep (price : Pricing) (s : Store) (tx : Transaction) (t : Store) : Prop :=
  (tx.commit price s).store = t

theorem run_statements {txs : List Transaction} (h : Run (commitStep price) s txs t)
    (hs : Settled s) : Settled t ∧ ReflTransGen Statement s t := by
  refine h.invariant (I := fun t => Settled t ∧ ReflTransGen Statement s t) ?_ ⟨hs,.refl⟩
  rintro t tx _ ⟨ht,hst⟩ rfl
  obtain ⟨hsettled,hstep⟩ := commit_statements ht
  exact ⟨hsettled,hst.trans hstep⟩

end CodexLb.UsageLedger
