import Mathlib.Data.String.Basic
import Mathlib.Data.List.Infix

/-!
# JSON values

Values as a JSON reader returns them. An object is the list of its rows in
insertion order; a lookup takes the row of the key, an assignment replaces the
value in place or appends a row. A number with a fraction or an exponent is kept
as its text.

`isInt` accepts booleans, as the integer test of a language does in which they
are integers.
-/
namespace CodexLb

inductive Json where
  | null
  | bool (b : Bool)
  | int (n : ℤ)
  | float (text : String)
  | str (s : String)
  | arr (xs : List Json)
  | obj (rows : List (String × Json))

namespace Json

structure Object where
  rows : List (String × Json)

def str? : Json → Option String
  | .str s => some s
  | _ => none

def isInt : Json → Option ℤ
  | .int n => some n
  | .bool b => some (if b then 1 else 0)
  | _ => none

def arr? : Json → Option (List Json)
  | .arr xs => some xs
  | _ => none

def obj? : Json → Option Object
  | .obj rows => some ⟨rows⟩
  | _ => none

/-- A value that may stand in a set. -/
def hashable : Json → Bool
  | .arr _ | .obj _ => false
  | _ => true

namespace Object

def empty : Object := ⟨[]⟩

variable (o : Object) (key : String)

def get? : Option Json :=
  (o.rows.find? fun q => q.1 = key).map Prod.snd

def has : Bool := (o.get? key).isSome

def set (value : Json) : Object :=
  if o.has key then ⟨o.rows.map fun q => if q.1 = key then (key,value) else q⟩
  else ⟨o.rows++[(key,value)]⟩

def setDefault (value : Json) : Object :=
  if o.has key then o else o.set key value

def toJson : Json := .obj o.rows

def text? : Option String := (o.get? key).bind Json.str?

def int? : Option ℤ := (o.get? key).bind Json.isInt

def obj? : Option Object := (o.get? key).bind Json.obj?

def arr? : Option (List Json) := (o.get? key).bind Json.arr?

variable {rows : List (String × Json)} {key other : String} {value : Json}

theorem find?_map_of_ne (hne : other ≠ key) :
    (rows.map fun q => if q.1 = key then (key,value) else q).find? (fun q => q.1 = other) =
      rows.find? fun q => q.1 = other := by
  induction rows with
  | nil => rfl
  | cons q rows ih =>
    rw [List.map_cons,List.find?_cons,List.find?_cons,ih]
    by_cases hq : q.1 = key
    · simp [hq,hne.symm]
    · simp [hq]

theorem find?_map_self (hsome : (rows.find? fun q => q.1 = key).isSome = true) :
    (rows.map fun q => if q.1 = key then (key,value) else q).find? (fun q => q.1 = key) =
      some (key,value) := by
  induction rows with
  | nil => cases hsome
  | cons q rows ih =>
    by_cases hq : q.1 = key
    · simp [hq]
    · have hrest : (rows.find? fun q => q.1 = key).isSome = true := by
        simpa [hq] using hsome
      simpa [hq] using ih hrest

theorem get?_set (o : Object) (key other : String) (value : Json) :
    (o.set key value).get? other = if other = key then some value else o.get? other := by
  unfold set has get?
  by_cases hhas : ((o.rows.find? fun q => q.1 = key).map Prod.snd).isSome = true
  · rw [if_pos hhas]
    split_ifs with ho
    · subst ho
      rw [Option.isSome_map] at hhas
      rw [find?_map_self hhas]
      rfl
    · rw [find?_map_of_ne ho]
  · rw [if_neg hhas,List.find?_append]
    rw [Option.isSome_map,Bool.not_eq_true,Option.isSome_eq_false_iff,Option.isNone_iff_eq_none]
      at hhas
    split_ifs with ho
    · subst ho
      rw [hhas]
      simp
    · cases hold : o.rows.find? fun q => q.1 = other with
      | some q => simp
      | none => simp [Ne.symm ho]

theorem text?_set_other (o : Object) (h : other ≠ key) (value : Json) :
    (o.set key value).text? other = o.text? other := by
  rw [text?,get?_set,if_neg h]
  rfl

end Object

end Json

namespace Text

def startsWith (s pre : String) : Bool := pre.toList.isPrefixOf s.toList

def endsWith (s suf : String) : Bool := suf.toList.isSuffixOf s.toList

def includes (s part : String) : Bool := decide (part.toList <:+: s.toList)

def dropFirst (s : String) (n : ℕ) : String := String.ofList (s.toList.drop n)

theorem append_dropFirst {s pre : String} (h : startsWith s pre = true) :
    pre++dropFirst s pre.length = s := by
  obtain ⟨rest,hrest⟩ := List.isPrefixOf_iff_prefix.mp h
  apply String.toList_inj.mp
  rw [String.toList_append,dropFirst,String.toList_ofList,← hrest,← String.length_toList,
    List.drop_left]

theorem startsWith_append (s t : String) : startsWith (s++t) s = true := by
  rw [startsWith, List.isPrefixOf_iff_prefix,String.toList_append]
  exact List.prefix_append _ _

end Text

end CodexLb
