import CodexLb.Dict
import Mathlib.Data.List.MinMax
import Mathlib.Data.Prod.Lex
import Mathlib.Data.String.Basic
import Mathlib.Data.Rat.Floor

/-!
# Merging additional rate limits

Several payloads can stand for one quota key. For each key and window the merge
keeps one entry: the higher usage, and among equal ones the smaller names. Two
entries with the same usage and names can still differ in their reset time or
window, and then the one that comes first is kept; so the result is independent
of the order exactly when no such pair is the best of its key and window. The
model leaves open how identifiers are normalised and how a float quotient is rounded.
-/
namespace CodexLb.AdditionalLimits
open Dict

structure UsageWindow where
  usedPercent : Option ℚ
  resetAt : Option ℤ
  limitWindowSeconds : Option ℤ
  resetAfterSeconds : Option ℤ
  deriving DecidableEq, Repr

structure RateLimitPayload where
  primaryWindow : Option UsageWindow
  secondaryWindow : Option UsageWindow
  deriving DecidableEq, Repr

structure AdditionalRateLimitPayload where
  limitName : String
  meteredFeature : String
  rateLimit : Option RateLimitPayload
  deriving DecidableEq, Repr

structure MergedAdditionalWindow where
  limitName : String
  meteredFeature : String
  usedPercent : ℚ
  resetAt : Option ℤ
  windowMinutes : Option ℤ
  deriving DecidableEq, Repr

inductive WindowName where
  | primary | secondary
  deriving DecidableEq, Repr

structure QuotaKeys where
  normalizeIdentifier : String → Option String
  aliasToQuotaKey : Dict String String

def QuotaKeys.canonicalizeAdditionalQuotaKey (q : QuotaKeys) (limitName meteredFeature : String) :
    Option String :=
  let known := [limitName,meteredFeature].filterMap q.normalizeIdentifier
  (known.findSome? q.aliasToQuotaKey.get?).or known.head?

def resetAt (resetAt resetAfterSeconds : Option ℤ) (nowEpoch : ℤ) : Option ℤ :=
  resetAt.or (resetAfterSeconds.map fun seconds => nowEpoch+max 0 seconds)

def windowMinutes (quotient : ℤ → ℚ) (limitSeconds : Option ℤ) : Option ℤ :=
  limitSeconds.bind fun seconds => if seconds ≤ 0 then none else some (max 1 ⌈quotient seconds⌉)

/-- The time of a merge, and the float that a number of seconds divided by 60 is
rounded to. -/
structure Env where
  nowEpoch : ℤ
  quotient : ℤ → ℚ

def preferMergedAdditionalWindow (existing candidate : MergedAdditionalWindow) :
    MergedAdditionalWindow :=
  if candidate.usedPercent > existing.usedPercent then candidate
  else if candidate.usedPercent < existing.usedPercent then existing
  else if toLex (candidate.limitName,candidate.meteredFeature) <
    toLex (existing.limitName,existing.meteredFeature) then candidate
  else existing

def RateLimitPayload.window (r : RateLimitPayload) : WindowName → Option UsageWindow
  | .primary => r.primaryWindow
  | .secondary => r.secondaryWindow

abbrev Merged := Dict String (Dict WindowName MergedAdditionalWindow)

section
variable (q : QuotaKeys) (env : Env)

def candidate (a : AdditionalRateLimitPayload) (name : WindowName) :
    Option MergedAdditionalWindow := do
  let window ← (← a.rateLimit).window name
  let usedPercent ← window.usedPercent
  return ⟨a.limitName,a.meteredFeature,usedPercent,
    resetAt window.resetAt window.resetAfterSeconds env.nowEpoch,
    windowMinutes env.quotient window.limitWindowSeconds⟩

def mergeWindow (key : String) (a : AdditionalRateLimitPayload) (merged : Merged)
    (name : WindowName) : Merged :=
  match candidate env a name with
  | none => merged
  | some c =>
    let windows := (get? merged key).getD empty
    set merged key (windows.set name
      (((windows.get? name).map fun e => preferMergedAdditionalWindow e c).getD c))

def mergeAdditional (merged : Merged) (a : AdditionalRateLimitPayload) : Merged :=
  match q.canonicalizeAdditionalQuotaKey a.limitName a.meteredFeature with
  | none => merged
  | some key => [WindowName.primary,.secondary].foldl (mergeWindow env key a) merged

def mergeAdditionalRateLimits (limits : List AdditionalRateLimitPayload) : Merged :=
  limits.foldl (mergeAdditional q env) empty

def entries (limits : List AdditionalRateLimitPayload) (key : String) (name : WindowName) :
    List MergedAdditionalWindow :=
  limits.filterMap fun a =>
    if q.canonicalizeAdditionalQuotaKey a.limitName a.meteredFeature = some key
    then candidate env a name else none
end

def Merged.kept (merged : Merged) (key : String) (name : WindowName) :
    Option MergedAdditionalWindow := (get? merged key).bind fun windows => windows.get? name

/-- Equality of the mappings, whatever the order of their keys. -/
def Merged.Same (a b : Merged) : Prop :=
  ∀ key, (get? a key).map Dict.get? = (get? b key).map Dict.get?

/-- For each key and window an entry of the highest usage is kept, if there is one. -/
def Merged.Maximal (m : Merged) (es : String → WindowName → List MergedAdditionalWindow) : Prop :=
  ∀ key name, (m.kept key name = none ↔ es key name = []) ∧ ∀ e, m.kept key name = some e →
    e ∈ es key name ∧ ∀ c ∈ es key name, c.usedPercent ≤ e.usedPercent

def MergedAdditionalWindow.rank (e : MergedAdditionalWindow) : ℚᵒᵈ ×ₗ (String ×ₗ String) :=
  toLex (OrderDual.toDual e.usedPercent,toLex (e.limitName,e.meteredFeature))

theorem prefer_eq {e c : MergedAdditionalWindow} :
    preferMergedAdditionalWindow e c = if c.rank < e.rank then c else e := by
  have hlt : c.rank < e.rank ↔ e.usedPercent < c.usedPercent ∨ c.usedPercent = e.usedPercent ∧
      toLex (c.limitName,c.meteredFeature) < toLex (e.limitName,e.meteredFeature) :=
    Prod.Lex.toLex_lt_toLex
  unfold preferMergedAdditionalWindow
  rw [if_congr hlt rfl rfl]
  rcases lt_trichotomy e.usedPercent c.usedPercent with h | h | h
  · rw [if_pos h,if_pos (.inl h)]
  · simp [h]
  · rw [if_neg h.not_gt,if_pos h,if_neg]
    rintro (h' | ⟨h',-⟩)
    · exact h.not_gt h'
    · exact h.ne h'

/-- Every key that is present has a window. -/
def Merged.Filled (m : Merged) : Prop :=
  ∀ key windows, get? m key = some windows → ∃ name, windows.get? name ≠ none

theorem same_of_kept {a b : Merged} (ha : a.Filled) (hb : b.Filled)
    (h : ∀ key name, a.kept key name = b.kept key name) : a.Same b := by
  intro key
  have hkey := h key
  unfold Merged.kept at hkey
  cases hka : get? a key with
  | none =>
    cases hkb : get? b key with
    | none => rfl
    | some windows =>
      obtain ⟨name,hname⟩ := hb key windows hkb
      exact absurd (hkey name).symm (by simpa [hka,hkb] using hname)
  | some windows =>
    cases hkb : get? b key with
    | none =>
      obtain ⟨name,hname⟩ := ha key windows hka
      exact absurd (hkey name) (by simpa [hka,hkb] using hname)
    | some others => exact congrArg some (funext fun name => by simpa [hka,hkb] using hkey name)

section
variable {q : QuotaKeys} {env : Env} {m : Merged} {limits : List AdditionalRateLimitPayload}

variable {a : AdditionalRateLimitPayload} {key : String} {name : WindowName}

theorem kept_mergeWindow {k : String} {n : WindowName} : (mergeWindow env key a m name).kept k n =
      if k = key ∧ n = name then match candidate env a name with
        | none => m.kept k n
        | some c => some (((m.kept k n).map fun e => preferMergedAdditionalWindow e c).getD c)
      else m.kept k n := by
  unfold mergeWindow
  cases candidate env a name with
  | none => simp
  | some c =>
    unfold Merged.kept
    rw [get?_set]
    by_cases hk : k = key
    · subst hk
      rw [if_pos rfl,Option.bind_some,get?_set]
      cases get? m k with
      | none => by_cases hn : n = name <;> simp [hn]
      | some windows => by_cases hn : n = name <;> simp [hn]
    · rw [if_neg hk,if_neg fun h => hk h.1]

theorem filled_mergeWindow (hm : m.Filled) : (mergeWindow env key a m name).Filled := by
  unfold mergeWindow
  cases candidate env a name with
  | none => exact hm
  | some c =>
    intro k windows hw
    rw [get?_set] at hw
    split_ifs at hw
    · cases hw
      exact ⟨name,by rw [get?_set,if_pos rfl]; simp⟩
    · exact hm k windows hw

theorem merged_spec : (mergeAdditionalRateLimits q env limits).Filled ∧ ∀ key name,
      (mergeAdditionalRateLimits q env limits).kept key name =
        (entries q env limits key name).argmin MergedAdditionalWindow.rank := by
  induction limits using List.reverseRecOn with
  | nil => exact ⟨fun _ _ => not_mem_empty,fun _ _ => rfl⟩
  | append_singleton limits a ih =>
    rw [mergeAdditionalRateLimits,List.foldl_append,← mergeAdditionalRateLimits,List.foldl_cons,
      List.foldl_nil,mergeAdditional]
    cases hkey : q.canonicalizeAdditionalQuotaKey a.limitName a.meteredFeature with
    | none => simpa [entries,hkey] using ih
    | some key =>
      refine ⟨filled_mergeWindow (filled_mergeWindow ih.1),fun k n => ?_⟩
      have hkept : ([WindowName.primary,.secondary].foldl (mergeWindow env key a)
          (mergeAdditionalRateLimits q env limits)).kept k n =
            (mergeWindow env key a (mergeAdditionalRateLimits q env limits) n).kept k n := by
        cases n <;> simp [kept_mergeWindow]
      rw [hkept,kept_mergeWindow,ih.2]
      unfold entries
      rw [List.filterMap_append]
      by_cases hk : k = key
      · subst hk
        cases hc : candidate env a n with
        | none => simp [hkey,hc]
        | some c =>
          simp only [List.filterMap_cons,hkey,hc,List.filterMap_nil,List.argmin_concat,and_self,
            if_true]
          cases List.argmin MergedAdditionalWindow.rank _ with
          | none => rfl
          | some e =>
            simp only [Option.map_some,Option.getD_some,prefer_eq]
            split_ifs <;> rfl
      · simp [hkey,hk,Ne.symm hk]

/-- Of the best entries of a key and a window no two differ. -/
def Decided (q : QuotaKeys) (env : Env) (limits : List AdditionalRateLimitPayload) : Prop :=
  ∀ key name, ∀ a ∈ entries q env limits key name, ∀ b ∈ entries q env limits key name,
    a.rank = b.rank → (∀ c ∈ entries q env limits key name, a.rank ≤ c.rank) → a = b

theorem kept_first {a : MergedAdditionalWindow} (ha : a ∈ entries q env limits key name)
    (hleast : ∀ c ∈ entries q env limits key name, a.rank ≤ c.rank) :
    ∃ others, others.Perm limits ∧
      (mergeAdditionalRateLimits q env others).kept key name = some a := by
  obtain ⟨p,hp,hpa⟩ := List.mem_filterMap.mp ha
  obtain ⟨front,back,rfl⟩ := List.append_of_mem hp
  have hperm : (p::(front++back)).Perm (front++p::back) := List.perm_middle.symm
  refine ⟨_,hperm,?_⟩
  have hentries : entries q env (p::(front++back)) key name =
      a::entries q env (front++back) key name := List.filterMap_cons_some hpa
  rw [merged_spec |>.2,hentries,List.argmin_cons]
  cases hrest : List.argmin MergedAdditionalWindow.rank _ with
  | none => rfl
  | some c =>
    have hc : c ∈ entries q env (p::(front++back)) key name := by
      rw [hentries]
      exact List.mem_cons_of_mem _ (List.argmin_mem hrest)
    exact if_neg (hleast c ((hperm.filterMap _).mem_iff.mp hc)).not_gt

theorem argmin_entries (hdecided : Decided q env limits)
    {others : List AdditionalRateLimitPayload} (hperm : others.Perm limits) :
    (entries q env others key name).argmin MergedAdditionalWindow.rank =
      (entries q env limits key name).argmin MergedAdditionalWindow.rank := by
  have hentries : (entries q env others key name).Perm (entries q env limits key name) :=
    hperm.filterMap _
  cases hl : (entries q env limits key name).argmin MergedAdditionalWindow.rank with
  | none =>
    rw [List.argmin_eq_none] at hl ⊢
    exact (hl ▸ hentries).eq_nil
  | some a =>
    cases ho : (entries q env others key name).argmin MergedAdditionalWindow.rank with
    | none =>
      rw [List.argmin_eq_none.mp ho,List.nil_perm] at hentries
      simp [hentries] at hl
    | some b =>
      have hb := hentries.mem_iff.mp (List.argmin_mem ho)
      have hrank : b.rank = a.rank := le_antisymm
        (List.le_of_mem_argmin (hentries.mem_iff.mpr (List.argmin_mem hl)) ho)
        (List.le_of_mem_argmin hb hl)
      refine congrArg some (hdecided key name b hb a (List.argmin_mem hl) hrank fun c hc => ?_)
      exact hrank.le.trans (List.le_of_mem_argmin hc hl)

/-- The merge is independent of the order exactly when the best entries are decided. -/
theorem merge_order_free_iff : ((∀ others : List AdditionalRateLimitPayload, others.Perm limits →
      (mergeAdditionalRateLimits q env others).Same
        (mergeAdditionalRateLimits q env limits)) ∧
      (mergeAdditionalRateLimits q env limits).Maximal (entries q env limits)) ↔
      Decided q env limits := by
  constructor
  · rintro ⟨hsame,-⟩ key name a ha b hb hrank hleast
    obtain ⟨as,has,hkept⟩ := kept_first ha hleast
    obtain ⟨bs,hbs,hkept'⟩ := kept_first hb (hrank ▸ hleast)
    have hread (m : Merged) : m.kept key name = ((get? m key).map Dict.get?).bind (· name) := by
      rw [Merged.kept]
      cases get? m key <;> rfl
    rw [hread,hsame _ has,← hsame _ hbs,← hread,hkept'] at hkept
    exact (Option.some.inj hkept).symm
  · intro hdecided
    constructor
    · intro others hperm
      refine same_of_kept (merged_spec).1 (merged_spec).1 fun key name => ?_
      rw [(merged_spec).2,(merged_spec).2,argmin_entries hdecided hperm]
    · intro key name
      rw [(merged_spec).2,List.argmin_eq_none]
      refine ⟨Iff.rfl,fun e he => ⟨List.argmin_mem he,fun c hc => ?_⟩⟩
      rcases Prod.Lex.toLex_le_toLex.mp (List.le_of_mem_argmin hc he) with h | h
      · exact h.le
      · exact (OrderDual.toDual.injective h.1).ge

def spark (resetAt : ℤ) : AdditionalRateLimitPayload :=
  ⟨"spark","spark",some ⟨some ⟨some 50,some resetAt,none,none⟩,none⟩⟩

def midnight : Env := ⟨0,fun seconds => seconds/60⟩

/-- Two payloads that differ in the reset time alone. -/
theorem swapped_differs :
    ¬(mergeAdditionalRateLimits ⟨some,empty⟩ midnight [spark 100,spark 200]).Same
      (mergeAdditionalRateLimits ⟨some,empty⟩ midnight [spark 200,spark 100]) := by
  intro hsame
  have h := congrArg (·.map (· WindowName.primary)) (hsame "spark")
  revert h
  decide +kernel

theorem argmin_append_of_subset {α β : Type*} [LinearOrder β] {f : α → β} {l m : List α}
    (h : m ⊆ l) : (l++m).argmin f = l.argmin f := by
  induction m using List.reverseRecOn with
  | nil => rw [List.append_nil]
  | append_singleton m a ih =>
    obtain ⟨hm,ha⟩ := List.append_subset.mp h
    rw [← List.append_assoc,List.argmin_concat,ih hm]
    cases hl : l.argmin f with
    | none => simp [List.argmin_eq_none.mp hl] at ha
    | some c => exact if_neg (List.le_of_mem_argmin (ha (by simp)) hl).not_gt

/-- Payloads that come once more change nothing. -/
theorem repeats_ignored {more : List AdditionalRateLimitPayload} (h : more ⊆ limits) :
    (mergeAdditionalRateLimits q env (limits++more)).Same
      (mergeAdditionalRateLimits q env limits) := by
  refine same_of_kept merged_spec.1 merged_spec.1 fun key name => ?_
  rw [merged_spec.2,merged_spec.2,entries,List.filterMap_append]
  exact argmin_append_of_subset (List.filterMap_subset _ h)

theorem spark_repeated :
    (mergeAdditionalRateLimits ⟨some,empty⟩ midnight ([spark 100,spark 200]++[spark 200])).Same
      (mergeAdditionalRateLimits ⟨some,empty⟩ midnight [spark 100,spark 200]) :=
  repeats_ignored (by simp)
end

end CodexLb.AdditionalLimits
