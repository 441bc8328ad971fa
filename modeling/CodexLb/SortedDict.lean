import CodexLb.Dict
import Mathlib.Data.List.Induction
import Mathlib.Data.List.Sort

/-!
# Dictionaries in the order of their keys

The rows of a dictionary sorted by key, and a dictionary filled from a list of
rows. Two lists of rows with strictly increasing keys are equal once they have
the same rows, so what is read off a sorted dictionary is decided by lookups.
-/
namespace CodexLb.Dict
variable {K V : Type*}

section Fill
variable [DecidableEq K]

def setAll (d : Dict K V) (rows : List (K × V)) : Dict K V :=
  rows.foldl (fun d q => d.set q.1 q.2) d

def lastValue (rows : List (K × V)) (k : K) : Option V :=
  ((rows.filter fun q => q.1 = k).getLast?).map Prod.snd

theorem lastValue_snoc {rows : List (K × V)} {q : K × V} {k : K} :
    lastValue (rows++[q]) k = if k = q.1 then some q.2 else lastValue rows k := by
  unfold lastValue
  by_cases hk : q.1 = k
  · simp [hk]
  · simp [hk,Ne.symm hk]

theorem get?_setAll_empty (rows : List (K × V)) (k : K) :
    (setAll empty rows).get? k = lastValue rows k := by
  induction rows using List.reverseRecOn with
  | nil => rfl
  | append_singleton rows q ih =>
    have hset : setAll empty (rows++[q]) = (setAll empty rows).set q.1 q.2 := by
      rw [setAll,List.foldl_append]
      rfl
    rw [hset,get?_set,lastValue_snoc,ih]

theorem lastValue_mem {rows : List (K × V)} {k : K} {v : V} (h : lastValue rows k = some v) :
    (k,v) ∈ rows := by
  obtain ⟨q,hq,rfl⟩ := Option.map_eq_some_iff.mp h
  obtain ⟨hmem,hkey⟩ := List.mem_filter.mp (List.mem_of_getLast? hq)
  rw [decide_eq_true_eq] at hkey
  rw [← hkey]
  exact hmem

theorem lastValue_of_mem {rows : List (K × V)} {q : K × V} (h : q ∈ rows) :
    ∃ v, lastValue rows q.1 = some v := by
  have hne : (rows.filter fun r => r.1 = q.1) ≠ [] := by
    apply List.ne_nil_of_mem
    exact List.mem_filter.mpr ⟨h,decide_eq_true rfl⟩
  exact ⟨_,by rw [lastValue,List.getLast?_eq_getLast_of_ne_nil hne]; rfl⟩

def passing (f : V → Option V) (rows : List (K × V)) : List (K × V) :=
  rows.filterMap fun q => (f q.2).map fun w => (q.1,w)

omit [DecidableEq K] in
theorem mem_passing {f : V → Option V} {rows : List (K × V)} {k : K} {w : V} :
    (k,w) ∈ passing f rows ↔ ∃ v, (k,v) ∈ rows ∧ f v = some w := by
  rw [passing,List.mem_filterMap]
  constructor
  · rintro ⟨⟨j,v⟩,hjv,hmap⟩
    obtain ⟨u,hu,heq⟩ := Option.map_eq_some_iff.mp hmap
    cases heq
    exact ⟨v,hjv,hu⟩
  · rintro ⟨v,hv,hfv⟩
    exact ⟨(k,v),hv,by simp [hfv]⟩

theorem lastValue_passing {f : V → Option V} {rows : List (K × V)} {k : K} {v w : V}
    (hlast : lastValue rows k = some v) (hf : f v = some w) :
    lastValue (passing f rows) k = some w := by
  induction rows using List.reverseRecOn with
  | nil => cases hlast
  | append_singleton rows q ih =>
    have hsnoc : passing f (rows++[q]) =
        passing f rows++((f q.2).map fun w => (q.1,w)).toList := by
      cases hq : f q.2 with
      | none | some u => simp [hq,passing]
    rw [lastValue_snoc] at hlast
    rw [hsnoc]
    by_cases hk : k = q.1
    · rw [if_pos hk] at hlast
      cases hlast
      rw [hf]
      simp only [Option.map_some,Option.toList_some]
      rw [lastValue_snoc,if_pos hk]
    · rw [if_neg hk] at hlast
      cases hq : f q.2 with
      | none => simpa using ih hlast
      | some u =>
        simp only [Option.map_some,Option.toList_some]
        rw [lastValue_snoc,if_neg hk]
        exact ih hlast

/-- No last value fails after one under the same key has passed. -/
def Kept (f : V → Option V) (rows : List (K × V)) : Prop :=
  ∀ q ∈ rows, (f q.2).isSome = true → ((lastValue rows q.1).bind f).isSome = true

theorem kept_iff {f : V → Option V} {rows : List (K × V)} :
    Kept f rows ↔ ∀ k w, lastValue (passing f rows) k = some w →
      ∃ v, lastValue rows k = some v ∧ f v = some w := by
  constructor
  · intro h k w hw
    obtain ⟨item,hitem,hfitem⟩ := mem_passing.mp (lastValue_mem hw)
    obtain ⟨u,hbind⟩ := Option.isSome_iff_exists.mp (h (k,item) hitem (by simp [hfitem]))
    obtain ⟨v,hv,hu⟩ := Option.bind_eq_some_iff.mp hbind
    have hsame := lastValue_passing hv hu
    rw [hw] at hsame
    exact ⟨v,hv,hu.trans hsame.symm⟩
  · intro h q hq hsome
    obtain ⟨u,hu⟩ := Option.isSome_iff_exists.mp hsome
    obtain ⟨w,hw⟩ := lastValue_of_mem (mem_passing.mpr ⟨q.2,hq,hu⟩)
    obtain ⟨v,hv,hfv⟩ := h q.1 w hw
    rw [hv,Option.bind_some,hfv]
    rfl

end Fill

section Sorted
variable [LinearOrder K]

def keyLe (a b : K × V) : Prop := a.1 ≤ b.1

instance : DecidableRel (keyLe : K × V → K × V → Prop) :=
  fun a b => inferInstanceAs (Decidable (a.1 ≤ b.1))

instance : Std.Total (keyLe : K × V → K × V → Prop) := ⟨fun a b => le_total a.1 b.1⟩

instance : IsTrans (K × V) keyLe := ⟨fun _ _ _ hab hbc => le_trans hab hbc⟩

def sortedRows (d : Dict K V) : List (K × V) := d.rows.insertionSort keyLe

theorem mem_sortedRows {d : Dict K V} {k : K} {v : V} :
    (k,v) ∈ d.sortedRows ↔ d.get? k = some v := by
  rw [get?_eq_some,sortedRows,List.mem_insertionSort]

theorem sortedRows_eq_nil {d : Dict K V} (h : d.sortedRows = []) : d.rows = [] := by
  have hlength := congrArg List.length h
  rw [sortedRows,List.length_insertionSort] at hlength
  exact List.length_eq_zero_iff.mp hlength

theorem sortedRows_pairwise (d : Dict K V) : d.sortedRows.Pairwise fun a b => a.1 < b.1 := by
  have hle : d.sortedRows.Pairwise keyLe := List.pairwise_insertionSort _ _
  have hkeys : (d.sortedRows.map Prod.fst).Nodup :=
    ((List.perm_insertionSort _ _).map Prod.fst).nodup_iff.mpr d.nodup
  have hne : d.sortedRows.Pairwise fun a b => a.1 ≠ b.1 := List.pairwise_map.mp hkeys
  refine (hle.and hne).imp ?_
  rintro a b ⟨hab,hdiff⟩
  exact lt_of_le_of_ne hab hdiff

/-- Rows with increasing keys are decided by their members. -/
theorem eq_of_increasing {a b : List (K × V)} (ha : a.Pairwise fun p q => p.1 < q.1)
    (hb : b.Pairwise fun p q => p.1 < q.1) (h : a.Perm b) : a = b := by
  refine List.Perm.eq_of_pairwise ?_ ha hb h
  intro p q _ _ hpq hqp
  exact absurd hpq hqp.not_gt

theorem nodup_of_increasing {a : List (K × V)} (ha : a.Pairwise fun p q => p.1 < q.1) : a.Nodup := by
  refine ha.imp ?_
  rintro p q hlt rfl
  exact lt_irrefl _ hlt

/-- The values of one dictionary that pass a function are those of another, in
order, iff every row of the other comes from one. -/
theorem filterMap_sortedRows {d e : Dict K V} {f : V → Option V}
    (h : ∀ k v w, d.get? k = some v → f v = some w → e.get? k = some w) :
    d.sortedRows.filterMap (fun q => f q.2) = e.sortedRows.map Prod.snd ↔
      ∀ k w, e.get? k = some w → ∃ v, d.get? k = some v ∧ f v = some w := by
  have hkept : (passing f d.sortedRows).Pairwise fun p q => p.1 < q.1 := by
    refine List.Pairwise.filterMap _ ?_ d.sortedRows_pairwise
    intro a b hab x hx y hy
    obtain ⟨_,_,rfl⟩ := Option.map_eq_some_iff.mp hx
    obtain ⟨_,_,rfl⟩ := Option.map_eq_some_iff.mp hy
    exact hab
  have hmem : ∀ k w, (k,w) ∈ passing f d.sortedRows ↔ ∃ v, d.get? k = some v ∧ f v = some w := by
    intro k w
    simp only [mem_passing,mem_sortedRows]
  have hvalues : d.sortedRows.filterMap (fun q => f q.2) =
      (passing f d.sortedRows).map Prod.snd := by
    rw [passing,List.map_filterMap]
    congr 1
    funext q
    rw [Option.map_map]
    exact Option.map_id'.symm
  have hsub : passing f d.sortedRows ⊆ e.sortedRows := by
    rintro ⟨k,w⟩ hkw
    obtain ⟨v,hv,hfv⟩ := (hmem k w).mp hkw
    exact mem_sortedRows.mpr (h k v w hv hfv)
  have hsubperm := List.subperm_of_subset (nodup_of_increasing hkept) hsub
  rw [hvalues]
  constructor
  · intro heq k w hw
    have hlength := congrArg List.length heq
    rw [List.length_map,List.length_map] at hlength
    have hperm := hsubperm.perm_of_length_le hlength.ge
    exact (hmem k w).mp (hperm.mem_iff.mpr (mem_sortedRows.mpr hw))
  · intro hall
    have hback : e.sortedRows ⊆ passing f d.sortedRows := by
      rintro ⟨k,w⟩ hkw
      exact (hmem k w).mpr (hall k w (mem_sortedRows.mp hkw))
    have hperm := hsubperm.antisymm
      (List.subperm_of_subset (nodup_of_increasing e.sortedRows_pairwise) hback)
    rw [eq_of_increasing hkept e.sortedRows_pairwise hperm]

end Sorted

end CodexLb.Dict
