import CodexLb.LedgerConservation
import CodexLb.StreamRounds

/-!
# Billing a stream

The usage reservation of a streamed request when the consumer stops the
generator at any point. A stop cuts the list of acts: the acts before it have
happened, the `finally` clause of `_stream_with_retry` runs if its `try`
statement was entered, and it releases the reservation unless the settlement
was recorded. A cancellation may also fall between the commit of the settlement
and the assignment that records it; the release then finds a closed row.

The transactions are those of the usage ledger, on any committed store in which
the reservation is open. Heartbeats only touch `updated_at` and are left out.
-/
namespace CodexLb.Streams
open UsageLedger Act

/-- Where the generator was stopped: how many acts had happened, and whether a
settlement among them was recorded. -/
structure Stop where
  position : ℕ
  recorded : Bool
  deriving DecidableEq, Repr

def Act.isSettle : Act → Bool
  | .settle _ => true
  | _ => false

section Settlement
variable (price : Pricing) (reservation : ReservationData) (requestModel : String) (now : ℤ)

def settleStreamApiKeyUsage (x : Settlement) (s : Store) : Store :=
  let model := if reservation.model = "" then requestModel else reservation.model
  match x.counts with
  | some (input,output,cached) =>
    (finalizeUsageReservation price ⟨reservation.reservationId,model,some input,some output,
      some cached,x.serviceTier⟩ now s).store
  | none => (releaseUsageReservationOnce reservation.reservationId now s).store

def commitAct (s : Store) : Act → Store
  | .settle x => settleStreamApiKeyUsage price reservation requestModel now x s
  | _ => s

/-- The committed store when the generator has ended and its cleanup has run. -/
def afterStop (acts : List Act) (stop : Stop) (s : Store) : Store :=
  let done := acts.take stop.position
  let t := done.foldl (commitAct price reservation requestModel now) s
  let settled := stop.recorded && done.any isSettle
  if done.contains .setup && !settled then
    (releaseUsageReservationOnce reservation.reservationId now t).store
  else t

end Settlement

/-- The counts of the completed event the consumer received. -/
def delivered (acts : List Act) : Option (ℤ × ℤ × ℤ) := (yields acts).findSome? Line.counts

/-- The reservation is finalized with the counts, or released without any. -/
def BilledAs (id : String) (counts : Option (ℤ × ℤ × ℤ)) (s : Store) : Prop :=
  ∃ r, s.reservations.find? id = some r ∧
    match counts with
    | some (input,output,cached) => r.status = .finalized ∧ r.inputTokens = some input ∧
        r.outputTokens = some output ∧ r.cachedInputTokens = some cached
    | none => r.status = .released

variable {id : String} {s : Store}

theorem BilledAs.closed {counts : Option (ℤ × ℤ × ℤ)} (h : BilledAs id counts s) :
    ∃ r, s.reservations.find? id = some r ∧ r.status ≠ .reserved := by
  obtain ⟨r,hfind,h⟩ := h
  refine ⟨r,hfind,?_⟩
  cases counts with
  | none =>
    rw [h]
    decide
  | some c =>
    rw [h.1]
    decide

theorem BilledAs.unique {a b : Option (ℤ × ℤ × ℤ)} (ha : BilledAs id a s) (hb : BilledAs id b s) :
    a = b := by
  obtain ⟨r,hr,ha⟩ := ha
  obtain ⟨q,hq,hb⟩ := hb
  rw [hr] at hq
  cases hq
  cases a with
  | none =>
    cases b with
    | none => rfl
    | some d => exact absurd (ha.symm.trans hb.1) (by decide)
  | some c =>
    cases b with
    | none => exact absurd (hb.symm.trans ha.1) (by decide)
    | some d =>
      obtain ⟨_,hi,ho,hc⟩ := ha
      obtain ⟨_,hi',ho',hc'⟩ := hb
      have hinput : c.1 = d.1 := Option.some.inj (hi.symm.trans hi')
      have houtput : c.2.1 = d.2.1 := Option.some.inj (ho.symm.trans ho')
      have hcached : c.2.2 = d.2.2 := Option.some.inj (hc.symm.trans hc')
      rw [Prod.ext hinput (Prod.ext houtput hcached)]

section Ledger
variable {price : Pricing} {reservation : ReservationData} {requestModel : String} {now : ℤ}
  {s : Store}

variable {r : UsageReservation}

theorem billedAs_settle (price : Pricing) (requestModel : String) (now : ℤ) (x : Settlement)
    (hfind : s.reservations.find? reservation.reservationId = some r)
    (hopen : r.status = .reserved) :
    BilledAs reservation.reservationId x.counts
      (settleStreamApiKeyUsage price reservation requestModel now x s) := by
  unfold settleStreamApiKeyUsage
  cases hc : x.counts with
  | none => exact release_row now hfind hopen
  | some c =>
    obtain ⟨r',hfind',hstatus,hi,ho,hcached⟩ := settle_row price
      ⟨reservation.reservationId,if reservation.model = "" then requestModel else reservation.model,
        some c.1,some c.2.1,some c.2.2,x.serviceTier⟩ .finalized now hfind hopen
    exact ⟨r',hfind',hstatus,hi,ho,hcached⟩

variable {acts : List Act}

theorem foldl_commitAct_of_unsettled (h : acts.any isSettle = false) :
    acts.foldl (commitAct price reservation requestModel now) s = s := by
  induction acts with
  | nil => rfl
  | cons a acts ih =>
    rw [List.any_cons,Bool.or_eq_false_iff] at h
    cases a with
    | setup | attempt _ | yield _ => exact ih h.2
    | settle x => exact absurd h.1 (by simp [isSettle])

variable {stop : Stop}

/-- Without a settlement the reservation is released once the `try` statement
was entered, and left open before. -/
theorem billedAs_unsettled (hfind : s.reservations.find? reservation.reservationId = some r)
    (hopen : r.status = .reserved) (hno : (acts.take stop.position).any isSettle = false)
    {counts : Option (ℤ × ℤ × ℤ)} :
    BilledAs reservation.reservationId counts
        (afterStop price reservation requestModel now acts stop s) ↔
      setup ∈ acts.take stop.position ∧ counts = none := by
  unfold afterStop
  simp only [foldl_commitAct_of_unsettled hno,hno,Bool.and_false,Bool.not_false,Bool.and_true,
    List.contains_iff_mem]
  split_ifs with hsetup
  · have hreleased : BilledAs reservation.reservationId none
        (releaseUsageReservationOnce reservation.reservationId now s).store :=
      release_row now hfind hopen
    constructor
    · intro h
      exact ⟨hsetup,h.unique hreleased⟩
    · intro h
      rw [h.2]
      exact hreleased
  · refine iff_of_false ?_ fun h => hsetup h.1
    intro h
    obtain ⟨q,hq,hclosed⟩ := h.closed
    rw [hfind] at hq
    cases hq
    exact hclosed hopen

/-- A settlement as the last act decides how the reservation is billed; a
release after it changes nothing. -/
theorem billedAs_settled (price : Pricing) (requestModel : String) (now : ℤ) {x : Settlement}
    (hfind : s.reservations.find? reservation.reservationId = some r)
    (hopen : r.status = .reserved) (hacts : acts.any isSettle = false)
    (hstop : (acts++[settle x]).length ≤ stop.position) (counts : Option (ℤ × ℤ × ℤ)) :
    BilledAs reservation.reservationId counts
        (afterStop price reservation requestModel now (acts++[.settle x]) stop s) ↔
      counts = x.counts := by
  have hsettled := billedAs_settle price requestModel now x
    hfind hopen
  have hstore : afterStop price reservation requestModel now (acts++[.settle x]) stop s =
      settleStreamApiKeyUsage price reservation requestModel now x s := by
    obtain ⟨q,hq,hclosed⟩ := hsettled.closed
    unfold afterStop
    simp only [List.take_of_length_le hstop,List.foldl_append,foldl_commitAct_of_unsettled hacts,
      List.foldl_cons,List.foldl_nil,commitAct]
    split_ifs
    · exact release_closed now hq hclosed
    · rfl
  rw [hstore]
  constructor
  · intro h
    exact h.unique hsettled
  · intro h
    rw [h]
    exact hsettled

end Ledger

variable {acts : List Act}

theorem not_isSettle_of_quiet (h : Quiet acts) : acts.any isSettle = false := by
  refine List.any_eq_false.mpr fun a ha => ?_
  have hq := h a ha
  cases a with
  | setup | attempt _ => simp [isSettle]
  | yield l | settle x => simp [quiet] at hq

variable {ls : List Line}

theorem not_isSettle_map_yield : (ls.map yield).any isSettle = false := by
  refine List.any_eq_false.mpr fun a ha => ?_
  obtain ⟨l,_,rfl⟩ := List.mem_map.mp ha
  simp [isSettle]

variable {n : ℕ}

theorem any_take_eq_false (h : acts.any isSettle = false) : (acts.take n).any isSettle = false :=
  List.any_eq_false.mpr fun a ha => List.any_eq_false.mp h a (List.mem_of_mem_take ha)

variable {cfg : Config}

theorem Trace.cases (hres : cfg.hasReservation = true) {ss : List Settlement}
    (h : Trace cfg acts ls ss) :
    (acts.any isSettle = false ∧ ∀ l ∈ yields acts, l.counts = none) ∨
    ∃ body x pre k, acts = body++[.settle x] ∧ body.any isSettle = false ∧
      yields acts = pre++[k] ∧ Unfinished pre ∧ x.counts = k.billed := by
  have hyields := h.yields_eq
  obtain ⟨⟨quiet,hq,hacts⟩,hbill⟩ := h
  have hbody : (quiet++ls.map yield).any isSettle = false := by
    rw [List.any_append,not_isSettle_of_quiet hq,not_isSettle_map_yield]
    rfl
  rcases hbill with ⟨rfl,hcounts⟩ | ⟨x,pre,k,rfl,hls,_,hpre,hbilled⟩
  · left
    refine ⟨?_,hyields ▸ hcounts⟩
    rw [hacts]
    simpa using hbody
  · right
    refine ⟨quiet++ls.map yield,x,pre,k,?_,hbody,hyields.trans hls,hpre,hbilled⟩
    rw [hacts]
    simp [settleActs,hres]

variable {script : Script}

theorem setup_mem_take (cfg : Config) : setup ∈ (streamWithRetry cfg script).acts.take n ↔
      script.imageReferences = none ∧ 0 < n := by
  unfold streamWithRetry
  cases himage : script.imageReferences with
  | some e => simp
  | none =>
    cases n with
    | zero => simp
    | succ n => cases script.ownerLookupFailed <;> simp

/-- The consumer enters the `try` statement, and after it received a completed
event with counts, which must be one the event model parses, it lets the
generator come to its end. -/
def Stop.Covered (cfg : Config) (script : Script) (stop : Stop) : Prop :=
  script.imageReferences = none ∧ 0 < stop.position ∧
  ∀ l ∈ yields ((streamWithRetry cfg script).acts.take stop.position), l.counts ≠ none →
    l.parsed = true ∧ (streamWithRetry cfg script).acts.length ≤ stop.position

theorem delivered_eq_none :
    delivered acts = none ↔ ∀ l ∈ yields acts, l.counts = none := List.findSome?_eq_none_iff

variable {k : Line}

theorem delivered_eq_last {pre : List Line} (hyields : yields acts = pre++[k])
    (hpre : Unfinished pre) : delivered acts = k.counts := by
  have hnone : pre.findSome? Line.counts = none :=
    List.findSome?_eq_none_iff.mpr (counts_of_unfinished hpre)
  unfold delivered
  rw [hyields,List.findSome?_append,hnone]
  cases hk : k.counts <;> simp [hk]

theorem imageReferences_eq_none (h : (streamWithRetry cfg script).acts ≠ []) :
    script.imageReferences = none := by
  cases himage : script.imageReferences with
  | none => rfl
  | some e =>
    refine absurd ?_ h
    unfold streamWithRetry
    rw [himage]

theorem counts_eq_billed_iff : k.counts = k.billed ↔ (k.counts ≠ none → k.parsed = true) := by
  unfold Line.billed
  cases k.parsed with
  | true | false => simp

def openRow : UsageReservation :=
  ⟨"res","key","model",.reserved,none,none,none,none,0,KeyedTable.empty⟩

def openStore : Store :=
  ⟨KeyedTable.empty,KeyedTable.empty,⟨[openRow],by simp⟩⟩

def openReservation : ReservationData := ⟨"res","key","model"⟩

def completedScript : Script := refusedScript ⟨[completedLine],none⟩

theorem completedScript_wellFormed : completedScript.WellFormed :=
  refusedScript_wellFormed (Or.inl ⟨rfl,[],completedLine,rfl,rfl,by simp⟩)

end CodexLb.Streams
