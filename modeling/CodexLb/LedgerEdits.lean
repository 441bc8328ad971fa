import CodexLb.LedgerStatements
import Mathlib.Data.List.Dedup

/-!
# Editing the limits of a key

`update_key` reads the limits of the key, builds the rows it wants, and hands
them to `upsert_limits`. The first gives the usage that is copied into the
wanted rows. Then `update` selects the key once more with `populate_existing`,
which overwrites the attributes of the session's objects with the values stored
by then. The flush compares the objects with those values and writes only the
columns that differ, so a column whose copied value equals the refreshed one is
not part of the UPDATE.

Other transactions commit between these points, and the result at the end says
exactly when the edit leaves their work alone. The other attributes of the key
that `update_key` writes are left out.
-/
namespace CodexLb.UsageLedger
open LimitWindows Relation Runs

structure LimitRuleInput where
  limitType : LimitType
  limitWindow : LimitWindow
  maxValue : ℤ
  modelFilter : Option String
  deriving DecidableEq, Repr

abbrev LimitIdentity := LimitType × LimitWindow × Option String

def limitIdentityFromInput (l : LimitRuleInput) : LimitIdentity :=
  (l.limitType,l.limitWindow,l.modelFilter)

/-- `_limit_identity_from_row` of the service and `_limit_key` of the
repository. -/
def limitIdentityFromRow (l : ApiKeyLimit) : LimitIdentity :=
  (l.limitType,l.limitWindow,l.modelFilter)

/-- An `ApiKeyLimit` object that has no row yet. -/
structure PendingLimit where
  apiKeyId : String
  limitType : LimitType
  limitWindow : LimitWindow
  maxValue : ℤ
  currentValue : ℤ
  modelFilter : Option String
  resetAt : ℤ
  deriving DecidableEq, Repr

def PendingLimit.limitKey (n : PendingLimit) : LimitIdentity :=
  (n.limitType,n.limitWindow,n.modelFilter)

/-- The entry of a dict that was filled from the rows in order: the last row
of an identity. -/
def matchedBy (rows : List ApiKeyLimit) (k : LimitIdentity) : Option ApiKeyLimit :=
  rows.reverse.find? fun l => limitIdentityFromRow l = k

def limitInputToRow (li : LimitRuleInput) (keyId : String) (now currentValue : ℤ)
    (resetAt : Option ℤ) : Except String PendingLimit :=
  if li.limitType = .credits ∧ li.modelFilter ≠ none then
    .error "credits limits do not support model_filter"
  else .ok ⟨keyId,li.limitType,li.limitWindow,li.maxValue,currentValue,li.modelFilter,
    resetAt.getD (nextLimitReset now li.limitWindow)⟩

def buildLimitRows (keyId : String) (now : ℤ) (existing : List ApiKeyLimit) (resetUsage : Bool) :
    List LimitRuleInput → Except String (List PendingLimit)
  | [] => .ok []
  | li::lis =>
    let row := match matchedBy existing (limitIdentityFromInput li) with
      | none => limitInputToRow li keyId now 0 none
      | some m =>
        if resetUsage then limitInputToRow li keyId now 0 none
        else limitInputToRow li keyId now m.currentValue (some m.resetAt)
    match row,buildLimitRows keyId now existing resetUsage lis with
    | .error e,_ => .error e
    | .ok _,.error e => .error e
    | .ok n,.ok rows => .ok (n::rows)

def buildLimitRowsForUpdate (keyId : String) (now : ℤ) (submitted : List LimitRuleInput)
    (existing : List ApiKeyLimit) (resetUsage : Bool) : Except String (List PendingLimit) :=
  if (submitted.map limitIdentityFromInput).dedup.length ≠ submitted.length then
    .error "Duplicate limit rules are not allowed"
  else buildLimitRows keyId now existing resetUsage submitted

/-! The session: objects, the flush, and `upsert_limits`. -/

/-- A persistent object: the values of its last load and its attributes now. -/
structure Tracked where
  committed : ApiKeyLimit
  current : ApiKeyLimit
  deriving DecidableEq, Repr

def writeColumn (committed current stored : ℤ) : ℤ := if current = committed then stored else current

/-- UPDATE api_key_limits with the columns whose value differs from the last
load; the other columns are never assigned. -/
def Tracked.flush (o : Tracked) (row : ApiKeyLimit) : ApiKeyLimit :=
  {row with
    maxValue := writeColumn o.committed.maxValue o.current.maxValue row.maxValue
    currentValue := writeColumn o.committed.currentValue o.current.currentValue row.currentValue
    resetAt := writeColumn o.committed.resetAt o.current.resetAt row.resetAt}

def flushRow (objects : List Tracked) (row : ApiKeyLimit) : ApiKeyLimit :=
  match objects.find? fun o => o.committed.id = row.id with
  | some o => o.flush row
  | none => row

theorem flushRow_id (objects : List Tracked) (row : ApiKeyLimit) :
    (flushRow objects row).id = row.id := by
  unfold flushRow
  split <;> rfl

/-- A SELECT does not overwrite the attributes of objects the session holds. -/
def sessionRows (loaded rows : List ApiKeyLimit) : List ApiKeyLimit :=
  rows.map fun l => (loaded.find? fun o => o.id = l.id).getD l

/-- One incoming row, applied to one object: only the matched object takes
its values. -/
def assignIncoming (existing : List ApiKeyLimit) (incoming : PendingLimit) (o : Tracked) : Tracked :=
  match matchedBy existing incoming.limitKey with
  | none => o
  | some m =>
    if o.committed.id = m.id then ⟨o.committed,{o.current with
      maxValue := incoming.maxValue
      currentValue := incoming.currentValue
      resetAt := incoming.resetAt}⟩
    else o

def nextLimitId (s : Store) : ℕ := (s.limits.rows.map (·.id)).foldr max 0+1

variable {s : Store} {l : ApiKeyLimit}

theorem lt_nextLimitId (hl : l ∈ s.limits.rows) : l.id < nextLimitId s := by
  have aux : ∀ ids : List ℕ, ∀ i ∈ ids, i ≤ ids.foldr max 0 := by
    intro ids
    induction ids with
    | nil => simp
    | cons j ids ih =>
      intro i hi
      rcases List.mem_cons.mp hi with rfl | hi
      · exact le_max_left _ _
      · exact (ih i hi).trans (le_max_right _ _)
  exact Nat.lt_succ_of_le (aux _ _ (List.mem_map_of_mem hl))

def insertLimit (s : Store) (n : PendingLimit) : Store :=
  let row : ApiKeyLimit := ⟨nextLimitId s,n.apiKeyId,n.limitType,n.limitWindow,n.maxValue,
    n.currentValue,n.modelFilter,n.resetAt⟩
  {s with limits := s.limits.insert row fun _ hl => (lt_nextLimitId hl).ne}

/-- `loaded` are the key's limits as the session last loaded them. -/
def upsertLimits (keyId : String) (limits : List PendingLimit) (loaded : List ApiKeyLimit)
    (s : Store) : Store :=
  let existing := sessionRows loaded (s.limitsOf keyId)
  let objects := limits.foldl (fun objects n => objects.map (assignIncoming existing n))
    (existing.map fun o => ⟨o,o⟩)
  let added := limits.filter fun n => matchedBy existing n.limitKey = none
  let deleted := existing.filter fun l => limitIdentityFromRow l ∉ limits.map (·.limitKey)
  let flushed := (s.updateLimits (fun _ => true) (flushRow objects) (flushRow_id objects)).2
  let inserted := added.foldl insertLimit flushed
  {inserted with limits := inserted.limits.filter fun l => l.id ∉ deleted.map (·.id)}

def rule (l : ApiKeyLimit) : ApiKeyLimit := {l with currentValue := 0,resetAt := 0}

def SameRules (s t : Store) : Prop := t.limits.rows.map rule = s.limits.rows.map rule

theorem SameRules.update (p : ApiKeyLimit → Bool) (f : ApiKeyLimit → ApiKeyLimit)
    (hf : ∀ l, (f l).id = l.id) (hrule : ∀ l, rule (f l) = rule l) :
    SameRules s (s.updateLimits p f hf).2 := by
  simp only [SameRules,Store.updateLimits,KeyedTable.update,List.map_map]
  apply List.map_congr_left
  intro l _
  simp only [Function.comp_apply]
  split_ifs
  · exact hrule l
  · rfl

variable {t : Store}

theorem SameRules.statement (h : Statement s t) : SameRules s t := by
  cases h with
  | relabel h => cases h <;> rfl
  | reset limitId hlt => exact SameRules.update _ _ _ fun _ => rfl
  | raise limitId delta expectedResetAt =>
    unfold Store.tryReserveUsage
    split_ifs
    · rfl
    · exact SameRules.update _ _ _ fun _ => rfl
  | create hfresh hwindow hc => rw [SameRules,(createUsageReservation_eq_some hc).1]
  | charge a hr hi hopen =>
    exact SameRules.update (s := s) _ (fun l => {l with currentValue := l.currentValue+_})
      (fun _ => rfl) fun _ => rfl

theorem run_sameRules {price : Pricing} {txs : List Transaction} (hs : Settled s)
    (h : Run (commitStep price) s txs t) : Settled t ∧ SameRules s t := by
  obtain ⟨hsettled,hst⟩ := run_statements h hs
  exact ⟨hsettled,statements_induction (I := SameRules s)
    (fun _ _ hstep hr => (SameRules.statement hstep).trans hr) hst rfl⟩

theorem SameRules.limitsOf (h : SameRules s t) (keyId : String) :
    (t.limitsOf keyId).map rule = (s.limitsOf keyId).map rule := by
  have hfilter : ∀ rows : List ApiKeyLimit, (rows.filter fun l => l.apiKeyId = keyId).map rule =
      (rows.map rule).filter fun l => l.apiKeyId = keyId := by
    intro rows
    rw [List.filter_map]
    rfl
  rw [Store.limitsOf,Store.limitsOf,hfilter,hfilter,h]

variable {rows : List ApiKeyLimit} {k : LimitIdentity}

theorem matchedBy_map_rule : (matchedBy rows k).map rule = matchedBy (rows.map rule) k := by
  rw [matchedBy,matchedBy,← List.map_reverse,List.find?_map]
  rfl

theorem matchedBy_some (h : matchedBy rows k = some l) : l ∈ rows ∧ limitIdentityFromRow l = k :=
  ⟨by simpa using List.mem_of_find?_eq_some h,by simpa using List.find?_some h⟩

/-- The rule of an identity is found in the same row before and after. -/
theorem SameRules.matchedBy (h : SameRules s t) {keyId : String}
    (hl : matchedBy (s.limitsOf keyId) k = some l) :
    ∃ m, matchedBy (t.limitsOf keyId) k = some m ∧ rule m = rule l := by
  have hmap : (UsageLedger.matchedBy (t.limitsOf keyId) k).map rule = some (rule l) := by
    rw [matchedBy_map_rule,h.limitsOf,← matchedBy_map_rule,hl]
    rfl
  exact Option.map_eq_some_iff.mp hmap

variable {m : ApiKeyLimit}

theorem rule_id (h : rule l = rule m) : l.id = m.id := by
  have hid := congrArg ApiKeyLimit.id h
  exact hid

theorem rule_identity (h : rule l = rule m) : limitIdentityFromRow l = limitIdentityFromRow m := by
  have hidentity := congrArg limitIdentityFromRow h
  exact hidentity

theorem nodup_limitsOf (s : Store) (keyId : String) : ((s.limitsOf keyId).map (·.id)).Nodup :=
  s.limits.nodup.sublist (List.filter_sublist.map _)

theorem sessionRows_eq {loaded : List ApiKeyLimit} (hnodup : (loaded.map (·.id)).Nodup)
    (hids : rows.map (·.id) = loaded.map (·.id)) : sessionRows loaded rows = loaded := by
  have aux : ∀ (part rows : List ApiKeyLimit), (∀ o ∈ part, o ∈ loaded) →
      rows.map (·.id) = part.map (·.id) → sessionRows loaded rows = part := by
    intro part
    induction part with
    | nil =>
      intro rows _ hids
      rw [List.map_eq_nil_iff.mp hids]
      rfl
    | cons o part ih =>
      intro rows hpart hids
      cases rows with
      | nil => cases hids
      | cons l rows =>
        obtain ⟨hid,hids⟩ := List.cons.inj hids
        have hfind : loaded.find? (fun q => q.id = l.id) = some o := by
          have hmem := hpart o (by simp)
          exact ((⟨loaded,hnodup⟩ : KeyedTable ApiKeyLimit.id).find?_eq_some _ _).mpr
            ⟨hmem,hid.symm⟩
        have htail := ih rows (fun q hq => hpart q (by simp [hq])) hids
        rw [sessionRows] at htail ⊢
        rw [List.map_cons,hfind,htail]
        rfl
  exact aux loaded rows (fun _ ho => ho) hids

section Build
variable {keyId : String} {now : ℤ} {existing : List ApiKeyLimit}

theorem limitInputToRow_ok {li : LimitRuleInput} {currentValue : ℤ} {resetAt : Option ℤ}
    {n : PendingLimit} (h : limitInputToRow li keyId now currentValue resetAt = .ok n) :
    n.limitKey = limitIdentityFromInput li ∧ n.currentValue = currentValue ∧
      n.resetAt = resetAt.getD (nextLimitReset now li.limitWindow) := by
  unfold limitInputToRow at h
  split_ifs at h
  cases h
  exact ⟨rfl,rfl,rfl⟩

/-- The wanted row of a rule that exists carries the usage that was read. -/
def Wanted (existing : List ApiKeyLimit) (li : LimitRuleInput) (n : PendingLimit) : Prop :=
  n.limitKey = limitIdentityFromInput li ∧ ∀ m,
    matchedBy existing (limitIdentityFromInput li) = some m →
      n.currentValue = m.currentValue ∧ n.resetAt = m.resetAt

variable {submitted : List LimitRuleInput} {rows : List PendingLimit}

theorem buildLimitRows_wanted (h : buildLimitRows keyId now existing false submitted = .ok rows) :
    List.Forall₂ (Wanted existing) submitted rows := by
  induction submitted generalizing rows with
  | nil =>
    cases h
    exact .nil
  | cons li lis ih =>
    rw [buildLimitRows] at h
    split at h
    · cases h
    · cases h
    · rename_i n rest hn hrest
      cases h
      refine .cons ?_ (ih hrest)
      split at hn
      · rename_i hnone
        refine ⟨(limitInputToRow_ok hn).1,fun m hm => ?_⟩
        rw [hnone] at hm
        cases hm
      · rename_i m hsome
        obtain ⟨hkey,hcur,hreset⟩ := limitInputToRow_ok hn
        refine ⟨hkey,fun m' hm' => ?_⟩
        rw [hsome] at hm'
        cases hm'
        exact ⟨hcur,hreset⟩

structure Plan (existing : List ApiKeyLimit) (submitted : List LimitRuleInput)
    (rows : List PendingLimit) : Prop where
  nodup : (rows.map (·.limitKey)).Nodup
  keys : rows.map (·.limitKey) = submitted.map limitIdentityFromInput
  wanted : ∀ li ∈ submitted, ∃ n ∈ rows, Wanted existing li n

theorem buildLimitRowsForUpdate_ok {resetUsage : Bool}
    (h : buildLimitRowsForUpdate keyId now submitted existing resetUsage = .ok rows) :
    (submitted.map limitIdentityFromInput).Nodup ∧
      buildLimitRows keyId now existing resetUsage submitted = .ok rows := by
  unfold buildLimitRowsForUpdate at h
  split_ifs at h with hlen
  rw [not_not,← List.length_map (f := limitIdentityFromInput)] at hlen
  exact ⟨List.dedup_eq_self.mp ((List.dedup_sublist _).eq_of_length hlen),h⟩

theorem buildLimitRowsForUpdate_plan
    (h : buildLimitRowsForUpdate keyId now submitted existing false = .ok rows) :
    Plan existing submitted rows := by
  obtain ⟨hnodup,hrows⟩ := buildLimitRowsForUpdate_ok h
  have hforall := buildLimitRows_wanted hrows
  clear h hrows
  have hkeys : rows.map (·.limitKey) = submitted.map limitIdentityFromInput := by
    clear hnodup
    induction hforall with
    | nil => rfl
    | cons hw _ ih => rw [List.map_cons,List.map_cons,hw.1,ih]
  refine ⟨hkeys ▸ hnodup,hkeys,fun li hli => ?_⟩
  clear hnodup hkeys
  induction hforall with
  | nil => cases hli
  | cons hw _ ih =>
    rcases List.mem_cons.mp hli with rfl | hli
    · exact ⟨_,by simp,hw⟩
    · obtain ⟨n,hn,hwn⟩ := ih hli
      exact ⟨n,List.mem_cons_of_mem _ hn,hwn⟩

end Build

section Objects
variable {existing : List ApiKeyLimit} {limits : List PendingLimit}

theorem foldl_map_assign {f : PendingLimit → Tracked → Tracked} {objects : List Tracked} :
    limits.foldl (fun objects n => objects.map (f n)) objects =
      objects.map fun o => limits.foldl (fun o n => f n o) o := by
  induction limits generalizing objects with
  | nil => simp
  | cons n limits ih =>
    rw [List.foldl_cons,ih,List.map_map]
    rfl

/-- The row an incoming rule is assigned to. -/
def Targets (existing : List ApiKeyLimit) (n : PendingLimit) (id : ℕ) : Prop :=
  ∃ m, matchedBy existing n.limitKey = some m ∧ m.id = id

variable {n : PendingLimit} {o : Tracked}

theorem assignIncoming_of_not_targets (h : ¬ Targets existing n o.committed.id) :
    assignIncoming existing n o = o := by
  unfold assignIncoming
  split
  · rfl
  · rename_i m hm
    rw [if_neg]
    exact fun hid => h ⟨m,hm,hid.symm⟩

theorem assignIncoming_of_targets (h : Targets existing n o.committed.id) :
    assignIncoming existing n o = ⟨o.committed,{o.current with
      maxValue := n.maxValue
      currentValue := n.currentValue
      resetAt := n.resetAt}⟩ := by
  obtain ⟨m,hm,hid⟩ := h
  simp only [assignIncoming,hm,hid,if_true]

theorem foldl_assign_none (h : ∀ n ∈ limits, ¬ Targets existing n o.committed.id) :
    limits.foldl (fun o n => assignIncoming existing n o) o = o := by
  induction limits with
  | nil => rfl
  | cons n limits ih =>
    rw [List.foldl_cons,assignIncoming_of_not_targets (h n (by simp))]
    exact ih fun k hk => h k (by simp [hk])

/-- Under distinct keys at most one incoming rule is assigned to an object. -/
theorem foldl_assign_one (hexisting : (existing.map (·.id)).Nodup)
    (hnodup : (limits.map (·.limitKey)).Nodup) (hn : n ∈ limits)
    (h : Targets existing n o.committed.id) :
    limits.foldl (fun o n => assignIncoming existing n o) o = assignIncoming existing n o := by
  have hother : ∀ k, k.limitKey ≠ n.limitKey → ¬ Targets existing k o.committed.id := by
    rintro k hne ⟨m',hm',hid'⟩
    obtain ⟨m,hm,hid⟩ := h
    have hsame : m' = m := List.inj_on_of_nodup_map hexisting (matchedBy_some hm').1
      (matchedBy_some hm).1 (hid'.trans hid.symm)
    rw [← (matchedBy_some hm').2,← (matchedBy_some hm).2,hsame] at hne
    exact hne rfl
  induction limits with
  | nil => cases hn
  | cons k limits ih =>
    simp only [List.map_cons,List.nodup_cons] at hnodup
    rw [List.foldl_cons]
    rcases List.mem_cons.mp hn with rfl | hn
    · have hcommitted : (assignIncoming existing n o).committed = o.committed := by
        rw [assignIncoming_of_targets h]
      apply foldl_assign_none
      intro k hk
      rw [hcommitted]
      exact hother k fun he => hnodup.1 (List.mem_map.mpr ⟨k,hk,he⟩)
    · have hne : k.limitKey ≠ n.limitKey :=
        fun he => hnodup.1 (List.mem_map.mpr ⟨n,hn,he.symm⟩)
      rw [assignIncoming_of_not_targets (hother k hne)]
      exact ih hnodup.2 hn

theorem foldl_assign_committed :
    (limits.foldl (fun o n => assignIncoming existing n o) o).committed = o.committed := by
  induction limits generalizing o with
  | nil => rfl
  | cons n limits ih =>
    rw [List.foldl_cons,ih]
    unfold assignIncoming
    split
    · rfl
    · split_ifs <;> rfl

end Objects

/-- What the flush makes of one stored row whose object was loaded as `v`. -/
def flushed (existing : List ApiKeyLimit) (limits : List PendingLimit) (v row : ApiKeyLimit) :
    ApiKeyLimit :=
  (limits.foldl (fun o n => assignIncoming existing n o) ⟨v,v⟩).flush row

variable {v row : ApiKeyLimit}

theorem flush_unchanged : Tracked.flush ⟨v,v⟩ row = row := by
  simp [Tracked.flush,writeColumn]

theorem flushRow_objects {existing : List ApiKeyLimit} {limits : List PendingLimit}
    (hnodup : (existing.map (·.id)).Nodup) (hv : v ∈ existing) (hid : v.id = row.id) :
    flushRow (limits.foldl (fun objects n => objects.map (assignIncoming existing n))
      (existing.map fun o => ⟨o,o⟩)) row = flushed existing limits v row := by
  have hfind : existing.find? (fun o => o.id = row.id) = some v :=
    ((⟨existing,hnodup⟩ : KeyedTable ApiKeyLimit.id).find?_eq_some _ _).mpr ⟨hv,hid⟩
  rw [flushRow,foldl_map_assign,List.map_map,List.find?_map]
  simp only [Function.comp_def,foldl_assign_committed,hfind]
  rfl

theorem mem_foldl_insertLimit {added : List PendingLimit} (h : l ∈ s.limits.rows) :
    l ∈ (added.foldl insertLimit s).limits.rows := by
  induction added generalizing s with
  | nil => exact h
  | cons n added ih => exact ih (List.mem_append_left _ h)

section Edit
variable {keyId : String} {s s₁ s₂ : Store} {rows : List PendingLimit} {d v : ApiKeyLimit}

theorem flushed_mem_upsertLimits (h : SameRules s₁ s₂) (hd : d ∈ s₂.limitsOf keyId)
    (hv : v ∈ s₁.limitsOf keyId) (hid : v.id = d.id)
    (hkept : limitIdentityFromRow d ∈ rows.map (·.limitKey)) :
    flushed (s₁.limitsOf keyId) rows v d ∈
      (upsertLimits keyId rows (s₁.limitsOf keyId) s₂).limits.rows := by
  have hids : (s₂.limitsOf keyId).map (·.id) = (s₁.limitsOf keyId).map (·.id) := by
    have hmap := congrArg (List.map ApiKeyLimit.id) (h.limitsOf keyId)
    rw [List.map_map,List.map_map] at hmap
    exact hmap
  have hsession := sessionRows_eq (nodup_limitsOf s₁ keyId) hids
  simp only [upsertLimits,hsession]
  refine List.mem_filter.mpr ⟨mem_foldl_insertLimit ?_,?_⟩
  · refine List.mem_map.mpr ⟨d,(List.mem_filter.mp hd).1,?_⟩
    exact flushRow_objects (nodup_limitsOf s₁ keyId) hv hid
  · have hrule : ∀ o ∈ s₁.limitsOf keyId, o.id = d.id →
        limitIdentityFromRow o = limitIdentityFromRow d := by
      intro o ho hod
      have hm : rule d ∈ (s₁.limitsOf keyId).map rule := by
        rw [← h.limitsOf]
        exact List.mem_map_of_mem hd
      obtain ⟨q,hq,hqd⟩ := List.mem_map.mp hm
      have hqo : o = q := List.inj_on_of_nodup_map (nodup_limitsOf s₁ keyId) ho hq
        (hod.trans (rule_id hqd).symm)
      rw [hqo]
      exact rule_identity hqd
    simp only [decide_eq_true_eq]
    intro hdel
    obtain ⟨o,ho,hod⟩ := List.mem_map.mp hdel
    obtain ⟨ho,hgone⟩ := List.mem_filter.mp ho
    rw [hrule o ho (by simpa [flushed,Tracked.flush] using hod)] at hgone
    exact (of_decide_eq_true hgone) hkept

/-- The rows of every rule the edit keeps have the usage they had when the
flush came. -/
def KeepsUsage (keyId : String) (submitted : List LimitRuleInput) (before after : Store) : Prop :=
  ∀ d ∈ before.limits.rows, d.apiKeyId = keyId →
    limitIdentityFromRow d ∈ submitted.map limitIdentityFromInput →
      ∃ e ∈ after.limits.rows, e.id = d.id ∧ e.currentValue = d.currentValue ∧ e.resetAt = d.resetAt

/-- The row of a kept rule as it was read, as it was refreshed and as it is
stored when the flush comes: each usage column still had at the refresh the
value that was read, or has it again. -/
def Undisturbed : Option ApiKeyLimit → Option ApiKeyLimit → Option ApiKeyLimit → Prop
  | some v,some w,some d =>
    (v.currentValue = w.currentValue ∨ v.currentValue = d.currentValue) ∧
      (v.resetAt = w.resetAt ∨ v.resetAt = d.resetAt)
  | _,_,_ => True

instance (v w d : Option ApiKeyLimit) : Decidable (Undisturbed v w d) := by
  unfold Undisturbed
  split <;> infer_instance

theorem writeColumn_eq_iff {c v d : ℤ} : writeColumn c v d = d ↔ v = c ∨ v = d := by
  unfold writeColumn
  split_ifs with h <;> simp [h]

theorem flushed_usage_iff {n : PendingLimit} (hnodup : (rows.map (·.limitKey)).Nodup)
    (hn : n ∈ rows) {w : ApiKeyLimit} (hw : matchedBy (s₁.limitsOf keyId) n.limitKey = some w) :
    ((flushed (s₁.limitsOf keyId) rows w d).currentValue = d.currentValue ∧
      (flushed (s₁.limitsOf keyId) rows w d).resetAt = d.resetAt) ↔
    (n.currentValue = w.currentValue ∨ n.currentValue = d.currentValue) ∧
      (n.resetAt = w.resetAt ∨ n.resetAt = d.resetAt) := by
  have htarget : Targets (s₁.limitsOf keyId) n (Tracked.committed ⟨w,w⟩).id := ⟨w,hw,rfl⟩
  rw [flushed,foldl_assign_one (nodup_limitsOf s₁ keyId) hnodup hn htarget,
    assignIncoming_of_targets htarget]
  exact and_congr writeColumn_eq_iff writeColumn_eq_iff

theorem flushed_unmatched (h : SameRules s₁ s₂) (hd : d ∈ s₂.limitsOf keyId) (hid : v.id = d.id)
    (hun : matchedBy (s₂.limitsOf keyId) (limitIdentityFromRow d) ≠ some d) :
    flushed (s₁.limitsOf keyId) rows v d = d := by
  have hnone : ∀ n ∈ rows, ¬ Targets (s₁.limitsOf keyId) n (Tracked.committed ⟨v,v⟩).id := by
    rintro n _ ⟨m,hm,hmid⟩
    obtain ⟨c,hc,hcm⟩ := h.matchedBy hm
    have hcd : c = d := List.inj_on_of_nodup_map (nodup_limitsOf s₂ keyId) (matchedBy_some hc).1 hd
      ((rule_id hcm).trans (hmid.trans hid))
    rw [hcd] at hc
    rw [(matchedBy_some hc).2] at hun
    exact hun hc
  rw [flushed,foldl_assign_none hnone]
  exact flush_unchanged

end Edit

/-- The limits are read in `s`, any transactions commit, the session's objects
are refreshed in `s₁`, more transactions commit, and the flush is committed in
`s₂`: the edit keeps all usage exactly if it is undisturbed. -/
theorem edit_keeps_usage_iff {price : Pricing} {s s₁ s₂ : Store} {txs later : List Transaction}
    (hs : Settled s) (h₁ : Run (commitStep price) s txs s₁)
    (h₂ : Run (commitStep price) s₁ later s₂) {keyId : String} {now : ℤ}
    {submitted : List LimitRuleInput} {rows : List PendingLimit}
    (hrows : buildLimitRowsForUpdate keyId now submitted (s.limitsOf keyId) false = .ok rows) :
    KeepsUsage keyId submitted s₂ (upsertLimits keyId rows (s₁.limitsOf keyId) s₂) ↔
      ∀ li ∈ submitted, Undisturbed (matchedBy (s.limitsOf keyId) (limitIdentityFromInput li))
        (matchedBy (s₁.limitsOf keyId) (limitIdentityFromInput li))
        (matchedBy (s₂.limitsOf keyId) (limitIdentityFromInput li)) := by
  obtain ⟨hs₁,hrules₁⟩ := run_sameRules hs h₁
  obtain ⟨_,hrules₂⟩ := run_sameRules hs₁ h₂
  have hplan := buildLimitRowsForUpdate_plan hrows
  constructor
  · intro hkeep li hli
    cases hv : matchedBy (s.limitsOf keyId) (limitIdentityFromInput li) with
    | none => trivial
    | some v =>
      obtain ⟨w,hw,_⟩ := hrules₁.matchedBy hv
      obtain ⟨d,hd,hdw⟩ := hrules₂.matchedBy hw
      rw [hw,hd]
      obtain ⟨n,hn,hkey,husage⟩ := hplan.wanted li hli
      obtain ⟨hcur,hreset⟩ := husage v hv
      obtain ⟨hdmem,hdid⟩ := matchedBy_some hd
      obtain ⟨hdrow,hdkey⟩ := List.mem_filter.mp hdmem
      have hkept : limitIdentityFromRow d ∈ submitted.map limitIdentityFromInput :=
        hdid ▸ List.mem_map_of_mem hli
      obtain ⟨e,he,heid,hecur,hereset⟩ := hkeep d hdrow (by simpa using hdkey) hkept
      have hflush := flushed_mem_upsertLimits hrules₂ hdmem (matchedBy_some hw).1
        (rule_id hdw).symm (hplan.keys ▸ hkept)
      have hsame := (upsertLimits keyId rows (s₁.limitsOf keyId) s₂).limits.eq_of_key he hflush heid
      rw [hsame] at hecur hereset
      have hiff := (flushed_usage_iff hplan.nodup hn (hkey ▸ hw)).mp ⟨hecur,hereset⟩
      rw [hcur,hreset] at hiff
      exact hiff
  · intro hund d hd hkey hkept
    have hdmem : d ∈ s₂.limitsOf keyId := List.mem_filter.mpr ⟨hd,by simpa using hkey⟩
    obtain ⟨w,hw,hwd⟩ := List.mem_map.mp
      (hrules₂.limitsOf keyId ▸ List.mem_map_of_mem (f := rule) hdmem)
    refine ⟨_,flushed_mem_upsertLimits hrules₂ hdmem hw (rule_id hwd) (hplan.keys ▸ hkept),rfl,?_⟩
    by_cases hmatch : matchedBy (s₂.limitsOf keyId) (limitIdentityFromRow d) = some d
    · obtain ⟨li,hli,hlid⟩ := List.mem_map.mp hkept
      obtain ⟨n,hn,hnkey,husage⟩ := hplan.wanted li hli
      have hback₂ : SameRules s₂ s₁ := hrules₂.symm
      have hback₁ : SameRules s₁ s := hrules₁.symm
      rw [← hlid] at hmatch
      obtain ⟨w',hw',hwd'⟩ := hback₂.matchedBy hmatch
      obtain ⟨v,hv,_⟩ := hback₁.matchedBy hw'
      obtain rfl : w' = w := List.inj_on_of_nodup_map (nodup_limitsOf s₁ keyId)
        (matchedBy_some hw').1 hw ((rule_id hwd').trans (rule_id hwd).symm)
      obtain ⟨hcur,hreset⟩ := husage v hv
      apply (flushed_usage_iff hplan.nodup hn (hnkey ▸ hw')).mpr
      have hcond := hund li hli
      rw [hv,hw',hmatch] at hcond
      rw [hcur,hreset]
      exact hcond
    · rw [flushed_unmatched hrules₂ hdmem (rule_id hwd) hmatch]
      exact ⟨rfl,rfl⟩

def editedRule : LimitRuleInput := ⟨.totalTokens,.daily,200000,none⟩

def editedRows : List PendingLimit := [⟨"k",.totalTokens,.daily,200000,0,none,1000⟩]

def reserveOnce : Transaction := .reserve ⟨"k",some "m",none,none⟩ "r" 10

/-- A reservation that commits after the refresh stays on the counter. -/
theorem edit_keeps_late_reservation :
    ((reserveOnce.commit zeroPrice meteredStore).store.limits.rows.map (·.currentValue)) = [10240] ∧
    KeepsUsage "k" [editedRule] (reserveOnce.commit zeroPrice meteredStore).store
      (upsertLimits "k" editedRows (meteredStore.limitsOf "k")
        (reserveOnce.commit zeroPrice meteredStore).store) :=
  ⟨by decide,(@edit_keeps_usage_iff zeroPrice meteredStore meteredStore
    (reserveOnce.commit zeroPrice meteredStore).store [] [reserveOnce]
    (Fresh.settled ⟨rfl,by decide⟩) (.done _)
    (.step rfl (.done _)) "k" 5 [editedRule] editedRows (by decide)).mpr (by decide)⟩

/-- A reservation that commits between the read and the refresh is wiped out:
the counter goes back to zero while the reservation is open. -/
theorem edit_overwrites_reservation :
    buildLimitRowsForUpdate "k" 5 [editedRule] (meteredStore.limitsOf "k") false = .ok editedRows ∧
    ¬ KeepsUsage "k" [editedRule] (reserveOnce.commit zeroPrice meteredStore).store
      (upsertLimits "k" editedRows
        ((reserveOnce.commit zeroPrice meteredStore).store.limitsOf "k")
        (reserveOnce.commit zeroPrice meteredStore).store) ∧
    ((upsertLimits "k" editedRows
        ((reserveOnce.commit zeroPrice meteredStore).store.limitsOf "k")
        (reserveOnce.commit zeroPrice meteredStore).store).limits.rows.map
      fun l => (l.maxValue,l.currentValue)) = [(200000,0)] := by
  unfold KeepsUsage
  decide

/-- Transactions are sequences of statements, and leave every rule as it is. -/
theorem transactions_keep_rules {s t : Store} {price : Pricing} {txs : List Transaction}
    (hs : Settled s) (h : Run (commitStep price) s txs t) :
    ReflTransGen Statement s t ∧ t.limits.rows.map rule = s.limits.rows.map rule :=
  ⟨(run_statements h hs).2,(run_sameRules hs h).2⟩

theorem metered_rules_kept : meteredEnd.limits.rows.map rule = meteredStore.limits.rows.map rule :=
  (@transactions_keep_rules _ _ zeroPrice meteredRun (Fresh.settled ⟨rfl,by decide⟩)
    (.step rfl (.step rfl (.done _)))).2

end CodexLb.UsageLedger
