import Mathlib.Algebra.Order.BigOperators.Group.List
import Mathlib.Data.List.Nodup
import Mathlib.Tactic.Abel

/-!
# Tables with a primary key

A table is a list of rows together with the proof that no two rows share a key,
so a lookup has one answer and a keyed update changes at most one row. `total`
adds a weight over the rows; the accounting lemmas say by how much an update or
an insertion changes it.
-/
namespace CodexLb

structure KeyedTable {K R : Type*} (key : R → K) where
  rows : List R
  nodup : (rows.map key).Nodup

namespace KeyedTable
variable {K R : Type*} {key : R → K}

def empty : KeyedTable key := ⟨[],List.nodup_nil⟩

variable (t : KeyedTable key)

theorem eq_of_key {r q : R} (hr : r ∈ t.rows) (hq : q ∈ t.rows)
    (h : key r = key q) : r = q := List.inj_on_of_nodup_map t.nodup hr hq h

/-- Rewrite every row that passes a test; the rewriting keeps the key. -/
def update (p : R → Bool) (f : R → R) (hf : ∀ r, key (f r) = key r) : KeyedTable key where
  rows := t.rows.map fun r => if p r then f r else r
  nodup := by
    have hmap : (t.rows.map fun r => if p r then f r else r).map key = t.rows.map key := by
      rw [List.map_map]
      apply List.map_congr_left
      intro r _
      by_cases h : p r = true
      · simp [h,hf]
      · simp [h]
    rw [hmap]
    exact t.nodup

theorem mem_update (p : R → Bool) (f : R → R) (hf : ∀ r, key (f r) = key r) (q : R) :
    q ∈ (t.update p f hf).rows ↔ ∃ r ∈ t.rows, (if p r then f r else r) = q := by
  simp [update]

/-- The rows of an update, without the proof about keys in the statement. -/
theorem exists_of_mem_update {rows : List R} {p : R → Bool} {f : R → R} {q : R}
    (h : q ∈ rows.map fun r => if p r then f r else r) :
    ∃ r ∈ rows, (if p r then f r else r) = q := List.mem_map.mp h

/-- Append a row under a key that no row holds yet. -/
def insert (r : R) (h : ∀ q ∈ t.rows, key q ≠ key r) : KeyedTable key where
  rows := t.rows++[r]
  nodup := by
    rw [List.map_append]
    apply List.Nodup.append t.nodup (by simp)
    intro k hk hr
    obtain ⟨q,hq,rfl⟩ := List.mem_map.mp hk
    simp only [List.map_cons,List.map_nil,List.mem_singleton] at hr
    exact h q hq hr

theorem mem_insert (r q : R) (h : ∀ q ∈ t.rows, key q ≠ key r) :
    q ∈ (t.insert r h).rows ↔ q ∈ t.rows ∨ q = r := by simp [insert]

def filter (p : R → Bool) : KeyedTable key where
  rows := t.rows.filter p
  nodup := t.nodup.sublist (List.filter_sublist.map key)

section Lookup
variable [DecidableEq K]

def find? (t : KeyedTable key) (k : K) : Option R := t.rows.find? fun r => key r = k

theorem find?_eq_some (t : KeyedTable key) (k : K) (r : R) :
    t.find? k = some r ↔ r ∈ t.rows ∧ key r = k := by
  constructor
  · intro h
    exact ⟨List.mem_of_find?_eq_some h,by simpa using List.find?_some h⟩
  · rintro ⟨hr,hk⟩
    cases hf : t.find? k with
    | none =>
      have hn := List.find?_eq_none.mp hf r hr
      simp [hk] at hn
    | some q =>
      have hq := List.mem_of_find?_eq_some hf
      have hqk : key q = k := by simpa using List.find?_some hf
      rw [t.eq_of_key hr hq (hk.trans hqk.symm)]

theorem find?_eq_none (t : KeyedTable key) (k : K) :
    t.find? k = none ↔ ∀ r ∈ t.rows, key r ≠ k := by
  simp [find?,List.find?_eq_none]

end Lookup

section Total
variable {M : Type*} [AddCommGroup M] (t : KeyedTable key)

def total (w : R → M) : M := (t.rows.map w).sum

theorem total_insert (r : R) (h : ∀ q ∈ t.rows, key q ≠ key r)
    (w : R → M) : (t.insert r h).total w = t.total w + w r := by
  simp [total,insert]

variable {v w : R → M}

theorem total_congr (h : ∀ r ∈ t.rows, v r = w r) : t.total v = t.total w := by
  rw [total,total,List.map_congr_left h]

theorem total_eq_zero (h : ∀ r ∈ t.rows, w r = 0) : t.total w = 0 := by
  rw [t.total_congr h]
  simp [total]

private theorem sum_map_single {rows : List R} (hn : (rows.map key).Nodup) {r : R} (hr : r ∈ rows)
    (h : ∀ q ∈ rows, key q ≠ key r → v q = w q) :
    (rows.map v).sum = (rows.map w).sum + (v r - w r) := by
  induction rows with
  | nil => simp at hr
  | cons q rows ih =>
    simp only [List.map_cons,List.nodup_cons] at hn
    rcases List.mem_cons.mp hr with rfl | hr
    · have htail : rows.map v = rows.map w := by
        apply List.map_congr_left
        intro q hq
        apply h q (List.mem_cons_of_mem _ hq)
        exact fun he => hn.1 (List.mem_map.mpr ⟨q,hq,he⟩)
      simp only [List.map_cons,List.sum_cons,htail]
      abel
    · have hq : key q ≠ key r := fun he => hn.1 (List.mem_map.mpr ⟨r,hr,he.symm⟩)
      simp only [List.map_cons,List.sum_cons,h q (by simp) hq,
        ih hn.2 hr (fun p hp => h p (List.mem_cons_of_mem _ hp))]
      abel

/-- Two weights that agree away from one row differ by their values there. -/
theorem total_eq_add {r : R} (hr : r ∈ t.rows)
    (h : ∀ q ∈ t.rows, key q ≠ key r → v q = w q) : t.total v = t.total w + (v r - w r) :=
  sum_map_single t.nodup hr h

theorem total_update (p : R → Bool) (f : R → R) (hf : ∀ r, key (f r) = key r) (w : R → M) :
    (t.update p f hf).total w = t.total fun r => w (if p r then f r else r) := by
  simp only [total,update,List.map_map]
  rfl

section Order
variable [PartialOrder M] [IsOrderedAddMonoid M] {w : R → M}

/-- Under nonnegative weights no row weighs more than the whole table. -/
theorem le_total (t : KeyedTable key) (hw : ∀ r ∈ t.rows, 0 ≤ w r) {r : R} (hr : r ∈ t.rows) :
    w r ≤ t.total w := by
  apply List.single_le_sum
  · intro x hx
    obtain ⟨q,hq,rfl⟩ := List.mem_map.mp hx
    exact hw q hq
  · exact List.mem_map_of_mem hr

theorem total_nonneg (t : KeyedTable key) (hw : ∀ r ∈ t.rows, 0 ≤ w r) : 0 ≤ t.total w := by
  apply List.sum_nonneg
  intro x hx
  obtain ⟨q,hq,rfl⟩ := List.mem_map.mp hx
  exact hw q hq

/-- Two rows under different keys weigh at most the whole table together. -/
theorem add_le_total [DecidableEq K] (t : KeyedTable key) (hw : ∀ r ∈ t.rows, 0 ≤ w r) {r q : R}
    (hr : r ∈ t.rows) (hq : q ∈ t.rows) (hne : key q ≠ key r) : w r+w q ≤ t.total w := by
  have hrest := t.total_eq_add (w := fun x => if key x = key r then 0 else w x) hr (v := w)
    fun x _ hx => (if_neg hx).symm
  have hle : w q ≤ t.total fun x => if key x = key r then 0 else w x := by
    have h := t.le_total (w := fun x => if key x = key r then 0 else w x) (fun x hx => by
      split
      · exact le_refl 0
      · exact hw x hx) hq
    simpa only [if_neg hne] using h
  rw [hrest,if_pos rfl,sub_zero,add_comm]
  exact add_le_add_left hle (w r)

end Order
end Total
end KeyedTable
end CodexLb
