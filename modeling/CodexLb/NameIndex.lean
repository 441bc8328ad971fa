import Mathlib.Data.List.Basic

/-!
# Names, their holders and an index

Objects hold names and register them in an index, each under a value of its own.
Two objects may register one name after the other, and an object gives its names
up by name alone. So the entry it takes away may be one that another object has
registered since; `last` says who registered a name last.

`Owned` excludes that: a name has one holder, and an entry under a name of an
object was registered by that object. It is kept when objects register names no
other object holds, give up all their names, or lose entries.
-/
namespace CodexLb

structure NameIndex (O N V : Type*) where
  names : O → List N
  value : O → Option V
  index : N → Option V
  last : N → Option O

namespace NameIndex
variable {O N V : Type*}

structure Owned (t : NameIndex O N V) : Prop where
  alone : ∀ {o p : O} {n : N}, n ∈ t.names o → n ∈ t.names p → o = p
  own : ∀ {o : O} {n : N} {v : V}, n ∈ t.names o → t.index n = some v →
    t.value o = some v ∧ t.last n = some o

/-- The names the object was the last to register lead to its value. -/
def Mapped (t : NameIndex O N V) (o : O) : Prop :=
  ∀ n ∈ t.names o,t.last n = some o → ∃ v, t.value o = some v ∧ t.index n = some v

structure Registers (o : O) (ns : List N) (t u : NameIndex O N V) : Prop where
  names : ∀ p n, n ∈ u.names p → (n ∈ t.names p ∨ p = o ∧ n ∈ ns) ∧ u.value p = t.value p
  written : ∀ n ∈ ns,u.index n = t.value o ∧ u.last n = some o
  others : ∀ n ∉ ns,u.index n = t.index n ∧ u.last n = t.last n

/-- Names are given up and the entries in `D` are dropped. -/
structure Drops (D : N → Prop) (t u : NameIndex O N V) : Prop where
  names : ∀ p n, n ∈ u.names p → n ∈ t.names p ∧ u.value p = t.value p
  dropped : ∀ n, D n → u.index n = none
  others : ∀ n, ¬D n → u.index n = t.index n
  last : ∀ n, u.last n = t.last n

variable {t u : NameIndex O N V} {o p : O}

theorem Owned.mapped (h : t.Owned) (hlisted : ∀ n ∈ t.names o,t.index n ≠ none) : t.Mapped o := by
  intro n hn _
  obtain ⟨v,hv⟩ := Option.ne_none_iff_exists'.mp (hlisted n hn)
  exact ⟨v,(h.own hn hv).1,hv⟩

namespace Registers
variable {ns : List N}

theorem owned (h : Registers o ns t u) (ht : t.Owned)
    (hfree : ∀ n ∈ ns,∀ p, n ∈ t.names p → p = o) : u.Owned := by
  have hold : ∀ {p n}, n ∈ u.names p → n ∈ ns → p = o := by
    intro p n hn hmem
    rcases (h.names p n hn).1 with hbefore | ⟨rfl,-⟩
    · exact hfree n hmem p hbefore
    · rfl
  constructor
  · intro p q n hp hq
    by_cases hmem : n ∈ ns
    · exact (hold hp hmem).trans (hold hq hmem).symm
    · exact ht.alone ((h.names p n hp).1.resolve_right fun hnew => hmem hnew.2)
        ((h.names q n hq).1.resolve_right fun hnew => hmem hnew.2)
  · intro p n v hn hv
    rw [(h.names p n hn).2]
    by_cases hmem : n ∈ ns
    · obtain ⟨hindex,hlast⟩ := h.written n hmem
      rw [hold hn hmem]
      exact ⟨hindex.symm.trans hv,hlast⟩
    · obtain ⟨hindex,hlast⟩ := h.others n hmem
      rw [hlast]
      exact ht.own ((h.names p n hn).1.resolve_right fun hnew => hmem hnew.2) (hindex.symm.trans hv)

theorem mapped (h : Registers o ns t u) (hvalue : t.value o ≠ none) (hp : t.Mapped p) :
    u.Mapped p := by
  intro n hn hlast
  rw [(h.names p n hn).2]
  by_cases hmem : n ∈ ns
  · obtain ⟨hindex,hwriter⟩ := h.written n hmem
    cases hwriter.symm.trans hlast
    obtain ⟨v,hv⟩ := Option.ne_none_iff_exists'.mp hvalue
    exact ⟨v,hv,hindex.trans hv⟩
  · obtain ⟨hindex,hsame⟩ := h.others n hmem
    rw [hindex]
    exact hp n ((h.names p n hn).1.resolve_right fun hnew => hmem hnew.2) (hsame.symm.trans hlast)

end Registers

namespace Drops
variable {D : N → Prop}

theorem owned (h : Drops D t u) (ht : t.Owned) : u.Owned := by
  constructor
  · exact fun hp hq => ht.alone (h.names _ _ hp).1 (h.names _ _ hq).1
  · intro p n v hn hv
    obtain ⟨hbefore,hvalue⟩ := h.names p n hn
    have hkept : ¬D n := fun hD => by
      rw [h.dropped n hD] at hv
      cases hv
    rw [hvalue,h.last]
    exact ht.own hbefore ((h.others n hkept).symm.trans hv)

theorem mapped (h : Drops D t u) (hp : t.Mapped p) (hkept : ∀ n ∈ u.names p,¬D n) : u.Mapped p := by
  intro n hn hlast
  obtain ⟨hbefore,hvalue⟩ := h.names p n hn
  rw [hvalue,h.others n (hkept n hn)]
  exact hp n hbefore ((h.last n).symm.trans hlast)

/-- An object that gives up its names takes away only entries of its own. -/
theorem release_own (h : Drops (· ∈ t.names o) t u) (ht : t.Owned) {n : N} {v : V}
    (hv : t.index n = some v) (hgone : u.index n = none) :
    t.value o = some v ∧ t.last n = some o := by
  by_cases hn : n ∈ t.names o
  · exact ht.own hn hv
  · rw [h.others n hn,hv] at hgone
    cases hgone

theorem release_mapped (h : Drops (· ∈ t.names o) t u) (ht : t.Owned) (hgiven : u.names o = [])
    (hp : t.Mapped p) : u.Mapped p := by
  refine h.mapped hp fun n hn hheld => ?_
  rw [← ht.alone hheld (h.names p n hn).1,hgiven] at hn
  cases hn

end Drops

/-- A step of the index that keeps the objects in `L` mapped: names no other
object holds are registered, an object gives all its names up, or entries are
dropped that belong to no object in `L`. -/
inductive Change (L : O → Prop) (t u : NameIndex O N V) : Prop
  | registers {o : O} {ns : List N} (h : Registers o ns t u) (hvalue : t.value o ≠ none)
      (hfree : ∀ n ∈ ns,∀ p, n ∈ t.names p → p = o)
  | releases {o : O} (h : Drops (· ∈ t.names o) t u) (hgiven : u.names o = [])
  | drops {D : N → Prop} (h : Drops D t u) (hkept : ∀ p, L p → ∀ n ∈ u.names p,¬D n)

namespace Change
variable {L : O → Prop}

theorem refl (t : NameIndex O N V) : Change L t t :=
  .drops (D := fun _ => False) ⟨fun _ _ hn => ⟨hn,rfl⟩,nofun,fun _ _ => rfl,fun _ => rfl⟩
    fun _ _ _ _ => id

theorem owned (h : Change L t u) (ht : t.Owned) : u.Owned := by
  cases h with
  | registers h _ hfree => exact h.owned ht hfree
  | releases h | drops h => exact h.owned ht

theorem mapped (h : Change L t u) (ht : t.Owned) (hL : L p) (hp : t.Mapped p) : u.Mapped p := by
  cases h with
  | registers h hvalue => exact h.mapped hvalue hp
  | releases h hgiven => exact h.release_mapped ht hgiven hp
  | drops h hkept => exact h.mapped hp (hkept p hL)

end Change

end NameIndex

end CodexLb
