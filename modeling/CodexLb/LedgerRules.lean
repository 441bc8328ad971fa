import CodexLb.LedgerEdits

/-!
# The rules of a key

`create_key` and `update_key` both hand their rows to `upsert_limits`, one call
after the other. An update refuses a list that names an identity twice; a
creation does not look, and the table has no constraint of its own. A call
whose other attributes are refused changes nothing, and neither does one that
raises: its transaction is rolled back.
-/
namespace CodexLb.UsageLedger
open LimitWindows

/-- The key, type, window and model filter of a row. -/
def ruleKey (l : ApiKeyLimit) : String×LimitIdentity := (l.apiKeyId,limitIdentityFromRow l)

/-- A key has at most one row of each identity. -/
def UniqueRules (s : Store) : Prop := (s.limits.rows.map ruleKey).Nodup

instance (s : Store) : Decidable (UniqueRules s) := inferInstanceAs (Decidable (List.Nodup _))

def ruleFromRow (l : ApiKeyLimit) : LimitIdentity×ℤ := (limitIdentityFromRow l,l.maxValue)

def ruleFromInput (li : LimitRuleInput) : LimitIdentity×ℤ := (limitIdentityFromInput li,li.maxValue)

def PendingLimit.rule (n : PendingLimit) : LimitIdentity×ℤ := (n.limitKey,n.maxValue)

def buildResetLimitRows (keyId : String) (now : ℤ) (existing : List ApiKeyLimit) :
    List PendingLimit :=
  existing.map fun l => ⟨keyId,l.limitType,l.limitWindow,l.maxValue,0,l.modelFilter,
    nextLimitReset now l.limitWindow⟩

inductive KeyCall where
  | create (keyId : String) (now : ℤ) (accepted : Bool) (expiresAt : Option ℤ)
      (limits : List LimitRuleInput)
  | update (keyId : String) (now : ℤ) (accepted limitsSet : Bool)
      (limits : Option (List LimitRuleInput)) (resetUsage : Bool)

/-- The rows of a new key are built as for a key without rows. -/
def createKey (keyId : String) (now : ℤ) (expiresAt : Option ℤ) (limits : List LimitRuleInput)
    (s : Store) : Option Store :=
  if h : ∀ k ∈ s.apiKeys.rows, k.id ≠ keyId then
    let created := {s with apiKeys := s.apiKeys.insert ⟨keyId,true,expiresAt,none⟩ h}
    if limits = [] then some created
    else match buildLimitRows keyId now [] false limits with
      | .error _ => none
      | .ok rows => some (upsertLimits keyId rows (created.limitsOf keyId) created)
  else none

def updateKey (keyId : String) (now : ℤ) (limitsSet : Bool) (limits : Option (List LimitRuleInput))
    (resetUsage : Bool) (s : Store) : Option Store :=
  if s.apiKeys.find? keyId = none then none
  else if limitsSet then
    match buildLimitRowsForUpdate keyId now (limits.getD []) (s.limitsOf keyId) resetUsage with
    | .error _ => none
    | .ok rows => some (upsertLimits keyId rows (s.limitsOf keyId) s)
  else if resetUsage then
    some (upsertLimits keyId (buildResetLimitRows keyId now (s.limitsOf keyId)) (s.limitsOf keyId) s)
  else some s

namespace KeyCall

def commit : KeyCall → Store → Option Store
  | create keyId now accepted expiresAt limits,s =>
    if accepted then createKey keyId now expiresAt limits s else none
  | update keyId now accepted limitsSet limits resetUsage,s =>
    if accepted then updateKey keyId now limitsSet limits resetUsage s else none

def after (s : Store) (c : KeyCall) : Store := (c.commit s).getD s

def submitted : KeyCall → Option (String×List LimitRuleInput)
  | create keyId _ _ _ limits => if limits = [] then none else some (keyId,limits)
  | update keyId _ _ limitsSet limits _ => if limitsSet then some (keyId,limits.getD []) else none

def Distinct : KeyCall → Prop
  | create _ _ _ _ limits => (limits.map limitIdentityFromInput).Nodup
  | update .. => True

end KeyCall

section Upsert
variable {s t : Store} {keyId : String} {rows : List PendingLimit} {l d : ApiKeyLimit}

theorem ruleKey_flushRow {objects : List Tracked} {row : ApiKeyLimit} :
    ruleKey (flushRow objects row) = ruleKey row := by
  unfold flushRow
  split <;> rfl

theorem foldl_insertLimit_rows {added : List PendingLimit} (s : Store) :
    ∃ new : List ApiKeyLimit, (added.foldl insertLimit s).limits.rows = s.limits.rows++new ∧
      new.map (fun l => (l.apiKeyId,ruleFromRow l)) = added.map fun n => (n.apiKeyId,n.rule) := by
  induction added generalizing s with
  | nil => exact ⟨[],(List.append_nil _).symm,rfl⟩
  | cons n added ih =>
    obtain ⟨new,hrows,hnew⟩ := ih (insertLimit s n)
    refine ⟨_::new,hrows.trans (List.append_assoc _ _ _),?_⟩
    rw [List.map_cons,List.map_cons,hnew]
    rfl

def unmatched (s : Store) (keyId : String) (rows : List PendingLimit) : List PendingLimit :=
  rows.filter fun n => matchedBy (s.limitsOf keyId) n.limitKey = none

theorem upsertLimits_rows : ∃ (objects : List Tracked) (new : List ApiKeyLimit),
      (upsertLimits keyId rows (s.limitsOf keyId) s).limits.rows =
        (s.limits.rows.map (flushRow objects)++new).filter (fun l => l.id ∉ ((s.limitsOf keyId).filter
          fun l => limitIdentityFromRow l ∉ rows.map (·.limitKey)).map (·.id)) ∧
      new.map (fun l => (l.apiKeyId,ruleFromRow l)) =
        (unmatched s keyId rows).map (fun n => (n.apiKeyId,n.rule)) ∧
      ((s.limits.rows.map (flushRow objects)++new).map (·.id)).Nodup := by
  have hsession := sessionRows_eq (nodup_limitsOf s keyId) rfl
  simp only [upsertLimits,hsession]
  generalize hflushed : (s.updateLimits (fun _ => true) _ _).2 = flushed
  obtain ⟨new,hrows,hnew⟩ := foldl_insertLimit_rows flushed
  have hids := KeyedTable.nodup ((unmatched s keyId rows).foldl insertLimit flushed).limits
  rw [hrows,← hflushed] at hids
  refine ⟨_,new,?_,hnew,hids⟩
  change List.filter _ ((unmatched s keyId rows).foldl insertLimit flushed).limits.rows = _
  rw [hrows,← hflushed]
  rfl

structure Incoming (keyId : String) (rows : List PendingLimit) : Prop where
  own : ∀ n ∈ rows, n.apiKeyId = keyId
  nodup : (rows.map (·.limitKey)).Nodup

theorem matchedBy_eq_none {existing : List ApiKeyLimit} {k : LimitIdentity}
    (h : matchedBy existing k = none) (hl : l ∈ existing) : limitIdentityFromRow l ≠ k := by
  simpa using List.find?_eq_none.mp h l (List.mem_reverse.mpr hl)

theorem upsertLimits_ruleKeys (h : Incoming keyId rows) :
    ((upsertLimits keyId rows (s.limitsOf keyId) s).limits.rows.map ruleKey).Sublist
      (s.limits.rows.map ruleKey++(unmatched s keyId rows).map fun n => (keyId,n.limitKey)) := by
  obtain ⟨objects,new,hrows,hnew,_⟩ := upsertLimits_rows
  have hold : (s.limits.rows.map (flushRow objects)).map ruleKey = s.limits.rows.map ruleKey := by
    rw [List.map_map]
    exact List.map_congr_left fun l _ => ruleKey_flushRow
  have hkeys : new.map ruleKey = (unmatched s keyId rows).map fun n => (keyId,n.limitKey) := by
    have hmap := congrArg (List.map fun q : String×LimitIdentity×ℤ => (q.1,q.2.1)) hnew
    rw [List.map_map,List.map_map] at hmap
    refine (show new.map ruleKey = _ from hmap).trans (List.map_congr_left fun n hn => ?_)
    rw [← h.own n (List.mem_filter.mp hn).1]
    rfl
  rw [hrows,← hold,← hkeys,← List.map_append]
  exact List.filter_sublist.map _

theorem UniqueRules.upsert (hs : UniqueRules s) (h : Incoming keyId rows) :
    UniqueRules (upsertLimits keyId rows (s.limitsOf keyId) s) := by
  refine List.Nodup.sublist (upsertLimits_ruleKeys h) (List.Nodup.append hs ?_ ?_)
  · have hnodup : ((unmatched s keyId rows).map (·.limitKey)).Nodup :=
      h.nodup.sublist (List.filter_sublist.map _)
    have hpairs := hnodup.map (Prod.mk_right_injective keyId)
    rwa [List.map_map] at hpairs
  · intro k hk hnew
    obtain ⟨d,hd,rfl⟩ := List.mem_map.mp hk
    obtain ⟨n,hn,heq⟩ := List.mem_map.mp hnew
    obtain ⟨howner,hidentity⟩ := Prod.mk.inj heq
    exact matchedBy_eq_none (of_decide_eq_true (List.mem_filter.mp hn).2)
      (List.mem_filter.mpr ⟨hd,decide_eq_true howner.symm⟩) hidentity.symm

theorem rule_mem_upsertLimits (h : Incoming keyId rows) {n : PendingLimit} (hn : n ∈ rows) :
    ∃ l ∈ (upsertLimits keyId rows (s.limitsOf keyId) s).limits.rows,
      l.apiKeyId = keyId ∧ ruleFromRow l = n.rule := by
  cases hm : matchedBy (s.limitsOf keyId) n.limitKey with
  | none =>
    obtain ⟨objects,new,hrows,hnew,hids⟩ := upsertLimits_rows
    have hmem : (n.apiKeyId,n.rule) ∈ new.map fun l => (l.apiKeyId,ruleFromRow l) := by
      rw [hnew]
      exact List.mem_map.mpr ⟨n,List.mem_filter.mpr ⟨hn,decide_eq_true hm⟩,rfl⟩
    obtain ⟨l,hl,heq⟩ := List.mem_map.mp hmem
    obtain ⟨howner,hrule⟩ := Prod.mk.inj heq
    refine ⟨l,?_,howner.trans (h.own n hn),hrule⟩
    rw [hrows]
    refine List.mem_filter.mpr ⟨List.mem_append_right _ hl,decide_eq_true fun hdel => ?_⟩
    obtain ⟨d,hd,hid⟩ := List.mem_map.mp hdel
    have hd := (List.mem_filter.mp (List.mem_filter.mp hd).1).1
    rw [List.map_append] at hids
    refine List.disjoint_of_nodup_append hids ?_ (List.mem_map_of_mem hl)
    exact List.mem_map.mpr ⟨_,List.mem_map_of_mem hd,(flushRow_id objects d).trans hid⟩
  | some d =>
    obtain ⟨hd,hidentity⟩ := matchedBy_some hm
    have htarget : Targets (s.limitsOf keyId) n (Tracked.committed ⟨d,d⟩).id := ⟨d,hm,rfl⟩
    refine ⟨_,flushed_mem_upsertLimits rfl hd hd rfl (hidentity ▸ List.mem_map_of_mem hn),
      of_decide_eq_true (List.mem_filter.mp hd).2,Prod.ext hidentity ?_⟩
    rw [flushed,foldl_assign_one (nodup_limitsOf s keyId) h.nodup hn htarget,
      assignIncoming_of_targets htarget]
    simp only [ruleFromRow,Tracked.flush,writeColumn,PendingLimit.rule]
    split_ifs with hsame
    · exact hsame.symm
    · rfl

theorem identity_mem_incoming (hl : l ∈ (upsertLimits keyId rows (s.limitsOf keyId) s).limits.rows)
    (howner : l.apiKeyId = keyId) : limitIdentityFromRow l ∈ rows.map (·.limitKey) := by
  obtain ⟨objects,new,hrows,hnew,_⟩ := upsertLimits_rows
  rw [hrows] at hl
  obtain ⟨hl,hkept⟩ := List.mem_filter.mp hl
  rcases List.mem_append.mp hl with hl | hl
  · obtain ⟨d,hd,rfl⟩ := List.mem_map.mp hl
    obtain ⟨hsame,hidentity⟩ := Prod.mk.inj (ruleKey_flushRow)
    rw [hidentity]
    by_contra hgone
    refine of_decide_eq_true hkept (List.mem_map.mpr ⟨d,?_,(flushRow_id objects d).symm⟩)
    exact List.mem_filter.mpr ⟨List.mem_filter.mpr ⟨hd,decide_eq_true (hsame.symm.trans howner)⟩,
      decide_eq_true hgone⟩
  · obtain ⟨n,hn,heq⟩ := List.mem_map.mp (hnew ▸ List.mem_map_of_mem hl)
    exact List.mem_map.mpr ⟨n,(List.mem_filter.mp hn).1,(Prod.mk.inj (Prod.mk.inj heq).2).1⟩

end Upsert

section Calls
variable {s t : Store} {keyId : String} {now : ℤ} {rows : List PendingLimit}
  {submitted : List LimitRuleInput} {existing : List ApiKeyLimit} {resetUsage : Bool}

theorem buildLimitRows_rules (h : buildLimitRows keyId now existing resetUsage submitted = .ok rows) :
    rows.map (fun n => (n.apiKeyId,n.rule)) = submitted.map fun li => (keyId,ruleFromInput li) := by
  have hrow : ∀ {li n c r}, limitInputToRow li keyId now c r = .ok n →
      (n.apiKeyId,n.rule) = (keyId,ruleFromInput li) := by
    intro li n c r hn
    unfold limitInputToRow at hn
    split_ifs at hn
    cases hn
    rfl
  induction submitted generalizing rows with
  | nil =>
    cases h
    rfl
  | cons li lis ih =>
    rw [buildLimitRows] at h
    split at h
    · cases h
    · cases h
    · rename_i n rest hn hrest
      cases h
      rw [List.map_cons,List.map_cons,ih hrest]
      split at hn
      · rw [hrow hn]
      · split_ifs at hn <;> rw [hrow hn]

theorem buildLimitRows_incoming
    (h : buildLimitRows keyId now existing resetUsage submitted = .ok rows)
    (hnodup : (submitted.map limitIdentityFromInput).Nodup) :
    Incoming keyId rows ∧ rows.map PendingLimit.rule = submitted.map ruleFromInput := by
  have hmap {β : Type} (f : String×LimitIdentity×ℤ → β) :=
    congrArg (List.map f) (buildLimitRows_rules h)
  simp only [List.map_map] at hmap
  refine ⟨⟨fun n hn => ?_,?_⟩,hmap Prod.snd⟩
  · have hmem : (n.apiKeyId,n.rule) ∈ submitted.map fun li => (keyId,ruleFromInput li) :=
      buildLimitRows_rules h ▸ List.mem_map_of_mem hn
    obtain ⟨li,_,heq⟩ := List.mem_map.mp hmem
    exact (Prod.mk.inj heq).1.symm
  · exact (show rows.map (·.limitKey) = submitted.map limitIdentityFromInput from
      hmap fun q => q.2.1) ▸ hnodup

theorem UniqueRules.incoming_reset (hs : UniqueRules s) :
    Incoming keyId (buildResetLimitRows keyId now (s.limitsOf keyId)) := by
  refine ⟨fun n hn => ?_,?_⟩
  · obtain ⟨l,_,rfl⟩ := List.mem_map.mp hn
    rfl
  · rw [buildResetLimitRows,List.map_map]
    refine List.Nodup.map_on ?_ (List.Nodup.of_map _ (nodup_limitsOf s keyId))
    intro l hl m hm heq
    simp only [Store.limitsOf,List.mem_filter,decide_eq_true_eq] at hl hm
    exact List.inj_on_of_nodup_map hs hl.1 hm.1 (Prod.ext (hl.2.trans hm.2.symm) heq)

def HasRules (s : Store) (keyId : String) (submitted : List LimitRuleInput) : Prop :=
  ∀ q, q ∈ (s.limitsOf keyId).map ruleFromRow ↔ q ∈ submitted.map ruleFromInput

theorem UniqueRules.submit (hs : UniqueRules s)
    (h : buildLimitRows keyId now existing resetUsage submitted = .ok rows)
    (hnodup : (submitted.map limitIdentityFromInput).Nodup) :
    UniqueRules (upsertLimits keyId rows (s.limitsOf keyId) s) ∧
      HasRules (upsertLimits keyId rows (s.limitsOf keyId) s) keyId submitted := by
  obtain ⟨hrows,hrules⟩ := buildLimitRows_incoming h hnodup
  have hunique := hs.upsert hrows
  refine ⟨hunique,fun q => ?_⟩
  rw [← hrules,List.mem_map,List.mem_map]
  constructor
  · rintro ⟨l,hl,rfl⟩
    obtain ⟨hl,howner⟩ := List.mem_filter.mp hl
    rw [decide_eq_true_eq] at howner
    obtain ⟨n,hn,hkey⟩ := List.mem_map.mp (identity_mem_incoming hl howner)
    obtain ⟨m,hm,hmowner,hmrule⟩ := rule_mem_upsertLimits (s := s) hrows hn
    have hsame : m = l := List.inj_on_of_nodup_map hunique hm hl
      (Prod.ext (hmowner.trans howner.symm) ((Prod.mk.inj hmrule).1.trans hkey))
    exact ⟨n,hn,hsame ▸ hmrule.symm⟩
  · rintro ⟨n,hn,rfl⟩
    obtain ⟨l,hl,howner,hrule⟩ := rule_mem_upsertLimits (s := s) hrows hn
    exact ⟨l,List.mem_filter.mpr ⟨hl,decide_eq_true howner⟩,hrule⟩

theorem UniqueRules.createKey {expiresAt : Option ℤ} (hs : UniqueRules s)
    (hnodup : (submitted.map limitIdentityFromInput).Nodup)
    (h : createKey keyId now expiresAt submitted s = some t) :
    UniqueRules t ∧ (submitted ≠ [] → HasRules t keyId submitted) := by
  unfold UsageLedger.createKey at h
  split_ifs at h with hnew hnil
  · cases h
    exact ⟨hs,fun hne => absurd hnil hne⟩
  · split at h
    · cases h
    · rename_i rows hrows
      cases h
      refine And.imp_right (fun hrules _ => hrules) ?_
      exact UniqueRules.submit (s := {s with apiKeys := _}) hs hrows hnodup

theorem UniqueRules.updateKey {limitsSet : Bool} {limits : Option (List LimitRuleInput)}
    (hs : UniqueRules s) (h : updateKey keyId now limitsSet limits resetUsage s = some t) :
    UniqueRules t ∧ (limitsSet = true → HasRules t keyId (limits.getD [])) := by
  unfold UsageLedger.updateKey at h
  split_ifs at h with hnone hset hreset
  · split at h
    · cases h
    · rename_i rows hrows
      cases h
      obtain ⟨hnodup,hrows⟩ := buildLimitRowsForUpdate_ok hrows
      exact (hs.submit hrows hnodup).imp_right fun hrules _ => hrules
  · cases h
    exact ⟨hs.upsert hs.incoming_reset,fun hset' => absurd hset' hset⟩
  · cases h
    exact ⟨hs,fun hset' => absurd hset' hset⟩

theorem UniqueRules.commit {c : KeyCall} (hs : UniqueRules s) (hc : c.Distinct)
    (h : c.commit s = some t) : UniqueRules t ∧ ∀ p ∈ c.submitted, HasRules t p.1 p.2 := by
  cases c with
  | create keyId now accepted expiresAt limits =>
    rw [KeyCall.commit] at h
    split_ifs at h
    refine (hs.createKey hc h).imp_right fun hrules p hp => ?_
    rw [KeyCall.submitted] at hp
    split_ifs at hp with hnil
    · cases hp
    · cases hp
      exact hrules hnil
  | update keyId now accepted limitsSet limits resetUsage =>
    rw [KeyCall.commit] at h
    split_ifs at h
    refine (hs.updateKey h).imp_right fun hrules p hp => ?_
    rw [KeyCall.submitted] at hp
    split_ifs at hp with hset
    · cases hp
      exact hrules hset
    · cases hp

theorem uniqueRules_calls {calls : List KeyCall} (hs : UniqueRules s) (h : ∀ c ∈ calls, c.Distinct) :
    UniqueRules (calls.foldl KeyCall.after s) := by
  induction calls generalizing s with
  | nil => exact hs
  | cons c calls ih =>
    refine ih ?_ fun d hd => h d (by simp [hd])
    rw [KeyCall.after]
    cases hc : c.commit s with
    | none => exact hs
    | some t => exact (hs.commit (h c (by simp)) hc).1

end Calls

def emptyStore : Store := ⟨KeyedTable.empty,KeyedTable.empty,KeyedTable.empty⟩

/-- Calls whose creations name no identity twice leave at most one row per key
and identity, and one more such call with limits leaves exactly the rules it
submits. -/
theorem rules_unique (calls : List KeyCall) (h : ∀ c ∈ calls, c.Distinct) :
    UniqueRules (calls.foldl KeyCall.after emptyStore) ∧
      ∀ (c : KeyCall) (t : Store), c.Distinct →
        c.commit (calls.foldl KeyCall.after emptyStore) = some t →
          UniqueRules t ∧ ∀ p ∈ c.submitted, HasRules t p.1 p.2 := by
  have hs : UniqueRules (calls.foldl KeyCall.after emptyStore) :=
    uniqueRules_calls List.nodup_nil h
  exact ⟨hs,fun _ _ hc ht => hs.commit hc ht⟩

def dailyTokens (maxValue : ℤ) : LimitRuleInput := ⟨.totalTokens,.daily,maxValue,none⟩

def createTwice : KeyCall := .create "k" 0 true none [dailyTokens 10,dailyTokens 20]

def editTwice : KeyCall := .update "k" 1 true true (some [dailyTokens 30]) false

def weeklyTokens (maxValue : ℤ) : LimitRuleInput := ⟨.totalTokens,.weekly,maxValue,none⟩

def createBoth : List KeyCall :=
  [.create "k" 0 true none [dailyTokens 10,weeklyTokens 50],
    .create "j" 0 true none [dailyTokens 10,weeklyTokens 10]]

def editedRules : List LimitRuleInput := [weeklyTokens 60,⟨.totalTokens,.daily,5,some "m"⟩]

def editBoth : KeyCall := .update "k" 1 true true (some editedRules) false

/-- One rule of the first key is edited, one is dropped and one is new. -/
theorem rules_unique_edited :
    ∃ t, editBoth.commit (createBoth.foldl KeyCall.after emptyStore) = some t ∧
      (t.limitsOf "j").length = 2 ∧ (t.limitsOf "k").length = 2 ∧ UniqueRules t ∧
      HasRules t "k" editedRules := by
  have hdistinct : ∀ c ∈ createBoth, c.Distinct := by
    simp [createBoth,KeyCall.Distinct,dailyTokens,weeklyTokens,limitIdentityFromInput]
  obtain ⟨t,ht,hj,hk⟩ : ∃ t, editBoth.commit (createBoth.foldl KeyCall.after emptyStore) = some t ∧
      (t.limitsOf "j").length = 2 ∧ (t.limitsOf "k").length = 2 := ⟨_,rfl,by decide +kernel⟩
  obtain ⟨hunique,hrules⟩ := (rules_unique createBoth hdistinct).2 editBoth t trivial ht
  exact ⟨t,ht,hj,hk,hunique,hrules ("k",editedRules) rfl⟩

/-- Two rules of one identity are both stored, and a later edit reaches one of
them. -/
theorem duplicate_rules_stored : ¬ UniqueRules (createTwice.after emptyStore) ∧
      ((editTwice.after (createTwice.after emptyStore)).limitsOf "k").map ruleFromRow =
        [ruleFromInput (dailyTokens 10),ruleFromInput (dailyTokens 30)] := by
  decide +kernel

end CodexLb.UsageLedger
