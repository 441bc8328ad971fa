import CodexLb.KeyedTable

/-!
# Dictionaries

A dictionary is a keyed table of pairs. Assignment to a key that is present
replaces the value in place and otherwise appends, so iteration order is
insertion order.
-/
namespace CodexLb

abbrev Dict (K V : Type*) := KeyedTable (Prod.fst : K × V → K)

namespace Dict
variable {K V : Type*}

def empty : Dict K V := KeyedTable.empty

def filter (d : Dict K V) (p : K → V → Bool) : Dict K V where
  rows := d.rows.filter fun q => p q.1 q.2
  nodup := d.nodup.sublist (List.filter_sublist.map _)

variable [DecidableEq K]

def get? (d : Dict K V) (k : K) : Option V := (d.find? k).map Prod.snd

def set (d : Dict K V) (k : K) (v : V) : Dict K V :=
  if h : ∀ q ∈ d.rows, q.1 ≠ k then d.insert (k,v) h
  else d.update (fun q => q.1 = k) (fun q => (q.1,v)) (fun _ => rfl)

def pop (d : Dict K V) (k : K) : Dict K V := d.filter fun j _ => j ≠ k

variable {d : Dict K V} {k : K} {v : V}

theorem get?_eq_some : d.get? k = some v ↔ (k,v) ∈ d.rows := by
  simp only [get?,Option.map_eq_some_iff,KeyedTable.find?_eq_some]
  constructor
  · rintro ⟨⟨j,u⟩,⟨hmem,rfl⟩,rfl⟩
    exact hmem
  · exact fun h => ⟨(k,v),⟨h,rfl⟩,rfl⟩

theorem get?_eq_none : d.get? k = none ↔ ∀ q ∈ d.rows, q.1 ≠ k := by
  simp only [get?,Option.map_eq_none_iff,KeyedTable.find?_eq_none]

@[simp] theorem get?_empty {k : K} : (empty : Dict K V).get? k = none := rfl

theorem not_mem_empty {P : Prop} (h : (empty : Dict K V).get? k = some v) : P := by
  cases h

private theorem ext_get? {a b : Option V} (h : ∀ v, a = some v ↔ b = some v) : a = b := by
  cases b with
  | some w => exact (h w).mpr rfl
  | none =>
    cases a with
    | none => rfl
    | some v => exact absurd ((h v).mp rfl) (by simp)

theorem get?_set (d : Dict K V) (k j : K) (v : V) :
    (d.set k v).get? j = if j = k then some v else d.get? j := by
  apply ext_get?
  intro u
  rw [get?_eq_some,set]
  by_cases hk : ∀ q ∈ d.rows, q.1 ≠ k
  · rw [dif_pos hk,KeyedTable.mem_insert,← get?_eq_some]
    by_cases hj : j = k
    · subst hj
      rw [get?_eq_none.mpr hk]
      simp [eq_comm]
    · simp [hj]
  · rw [dif_neg hk,KeyedTable.mem_update]
    constructor
    · rintro ⟨⟨i,w⟩,hmem,he⟩
      by_cases hi : i = k
      · simp only [hi,decide_true,if_true,Prod.mk.injEq] at he
        obtain ⟨rfl,rfl⟩ := he
        simp
      · simp only [hi,decide_false,Bool.false_eq_true,if_false,Prod.mk.injEq] at he
        obtain ⟨rfl,rfl⟩ := he
        rw [if_neg hi]
        exact get?_eq_some.mpr hmem
    · intro h
      by_cases hj : j = k
      · subst hj
        simp only [if_true,Option.some.injEq] at h
        push Not at hk
        obtain ⟨q,hq,hqk⟩ := hk
        exact ⟨q,hq,by simp [hqk,h]⟩
      · rw [if_neg hj] at h
        exact ⟨(j,u),get?_eq_some.mp h,by simp [hj]⟩

theorem get?_filter {p : K → V → Bool} :
    (d.filter p).get? k = some v ↔ d.get? k = some v ∧ p k v = true := by
  simp only [get?_eq_some,filter,List.mem_filter]

theorem get?_pop (d : Dict K V) (k j : K) :
    (d.pop k).get? j = if j = k then none else d.get? j := by
  apply ext_get?
  intro v
  rw [pop,get?_filter]
  by_cases hj : j = k
  · simp [hj]
  · simp [hj]

/-- What a sequence of assignments or removals leaves under a key. -/
theorem get?_foldl {f : Dict K V → K → Dict K V} {v : Option V}
    (hf : ∀ d k j, (f d k).get? j = if j = k then v else d.get? j) (ks : List K) (d : Dict K V)
    (j : K) : (j ∈ ks → (ks.foldl f d).get? j = v) ∧
      (j ∉ ks → (ks.foldl f d).get? j = d.get? j) := by
  induction ks generalizing d with
  | nil => exact ⟨nofun,fun _ => rfl⟩
  | cons k ks ih =>
    obtain ⟨hwritten,hother⟩ := ih (f d k)
    rw [List.foldl_cons]
    constructor
    · intro hj
      by_cases hmem : j ∈ ks
      · exact hwritten hmem
      · rw [hother hmem,hf,if_pos ((List.mem_cons.mp hj).resolve_right hmem)]
    · intro hj
      rw [List.mem_cons,not_or] at hj
      rw [hother hj.2,hf,if_neg hj.1]

variable {c : Dict K V}

theorem get?_none_of_sublist (h : c.rows.Sublist d.rows) (hk : d.get? k = none) : c.get? k = none :=
  get?_eq_none.mpr fun q hq => get?_eq_none.mp hk q (h.subset hq)

theorem length_set_le (d : Dict K V) (k : K) (v : V) :
    (d.set k v).rows.length ≤ d.rows.length+1 := by
  rw [set]
  split_ifs
  · simp [KeyedTable.insert]
  · simp [KeyedTable.update]

theorem length_pop_lt (hk : d.get? k = some v) : (d.pop k).rows.length < d.rows.length := by
  apply List.length_filter_lt_length_iff_exists.mpr
  exact ⟨(k,v),get?_eq_some.mp hk,by simp⟩

theorem mem_filterMap_get? {ks : List K} :
    (k,v) ∈ (ks.filterMap fun j => (d.get? j).map fun w => (j,w)) ↔ k ∈ ks ∧ d.get? k = some v := by
  rw [List.mem_filterMap]
  constructor
  · rintro ⟨j,hj,he⟩
    obtain ⟨w,hw,he⟩ := Option.map_eq_some_iff.mp he
    cases he
    exact ⟨hj,hw⟩
  · rintro ⟨hk,hv⟩
    exact ⟨k,hk,by rw [hv]; rfl⟩

theorem keys_filterMap_get?_sublist (d : Dict K V) (ks : List K) :
    List.Sublist ((ks.filterMap fun j => (d.get? j).map fun w => (j,w)).map Prod.fst) ks := by
  induction ks with
  | nil => exact List.Sublist.slnil
  | cons k ks ih =>
    rw [List.filterMap_cons]
    cases d.get? k with
    | none => exact ih.cons k
    | some v => exact ih.cons_cons k

/-- Setting a key changes a total by the new weight minus the replaced one. -/
theorem total_set {M : Type*} [AddCommGroup M] (d : Dict K V) (k : K) (v : V) (w : V → M) :
    (d.set k v).total (fun q => w q.2) =
      d.total (fun q => w q.2)+(w v-(d.get? k).elim 0 w) := by
  rw [set]
  split_ifs with hk
  · rw [KeyedTable.total_insert,get?_eq_none.mpr hk]
    simp
  · push Not at hk
    obtain ⟨⟨j,u⟩,hmem,rfl⟩ := hk
    rw [KeyedTable.total_update,get?_eq_some.mpr hmem]
    rw [d.total_eq_add (w := fun q => w q.2) hmem fun q _ hq => by simp [hq]]
    simp

end Dict
end CodexLb
