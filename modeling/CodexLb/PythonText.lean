import Mathlib.Data.List.DropRight

/-!
# Text as a Python program sees it

Texts are lists of characters. Blanks and line breaks are those of Unicode, not
those of ASCII alone.
-/
namespace CodexLb.PythonText

def isSpace (c : Char) : Bool :=
  (9 ≤ c.toNat && c.toNat ≤ 13) || (28 ≤ c.toNat && c.toNat ≤ 32) ||
    (0x2000 ≤ c.toNat && c.toNat ≤ 0x200a) ||
    c.toNat ∈ [0x85,0xa0,0x1680,0x2028,0x2029,0x202f,0x205f,0x3000]

def stripWhere (p : Char → Bool) (s : List Char) : List Char := (s.dropWhile p).rdropWhile p

def strip (s : List Char) : List Char := stripWhere isSpace s

def isLineBreak (c : Char) : Bool :=
  (10 ≤ c.toNat && c.toNat ≤ 13) || (28 ≤ c.toNat && c.toNat ≤ 30) ||
    c.toNat ∈ [0x85,0x2028,0x2029]

/-- The lines of a text behind the start of a line. A line feed that follows a
carriage return belongs to the same break. -/
def linesFrom : Bool → List Char → List Char → List (List Char)
  | _,line,[] => if line = [] then [] else [line]
  | afterReturn,line,c::t =>
    if afterReturn && c = '\n' then linesFrom false line t
    else if isLineBreak c then line::linesFrom (c = '\r') [] t
    else linesFrom false (line++[c]) t

/-- A text does not end with an empty line. -/
def splitlines (s : List Char) : List (List Char) := linesFrom false [] s

section
variable {T : Type*} {f : List Char → Option T} {u : List Char}

theorem linesFrom_plain (line : List Char) (hu : ∀ c ∈ u, isLineBreak c = false) (t : List Char) :
    linesFrom false line (u++t) = linesFrom false (line++u) t := by
  induction u generalizing line with
  | nil => simp
  | cons c u ih =>
    rw [List.forall_mem_cons] at hu
    rw [List.cons_append,linesFrom,hu.1]
    simpa using ih (line++[c]) hu.2

theorem filterMap_cons_eq {line : List Char} {ls : List (List Char)} :
    (line::ls).filterMap f = (f line).toList++ls.filterMap f := by
  cases h : f line <;> simp [h]

theorem filterMap_linesFrom_true (hf : f [] = none) {t : List Char} :
    (linesFrom true [] t).filterMap f = (splitlines t).filterMap f := by
  cases t with
  | nil => rfl
  | cons c t =>
    rw [splitlines,linesFrom,linesFrom]
    by_cases hc : c = '\n'
    · rw [if_pos (by simp [hc]),if_neg (by simp),if_pos (by rw [hc]; rfl),filterMap_cons_eq,hf,hc]
      rfl
    · simp [hc]

/-- What is read from lines that are not empty is read from one line after the
other, whatever ends them. -/
theorem filterMap_splitlines_cut (hf : f [] = none) (hu : ∀ c ∈ u, isLineBreak c = false)
    {x : Char} (hx : isLineBreak x = true) (t : List Char) :
    (splitlines (u++x::t)).filterMap f = (f u).toList++(splitlines t).filterMap f := by
  rw [splitlines,linesFrom_plain [] hu,List.nil_append,linesFrom,if_neg (by simp),if_pos hx,
    filterMap_cons_eq]
  by_cases hr : x = '\r'
  · simp [hr,filterMap_linesFrom_true hf]
  · simp [hr,splitlines]

theorem filterMap_splitlines_line (hf : f [] = none) (hu : ∀ c ∈ u, isLineBreak c = false) :
    (splitlines u).filterMap f = (f u).toList := by
  have h := linesFrom_plain [] hu []
  rw [List.append_nil,List.nil_append] at h
  rw [splitlines,h,linesFrom]
  split_ifs with hnil
  · simp [hnil,hf]
  · rw [filterMap_cons_eq]
    simp

theorem exists_cut {s : List Char} (h : ∃ c ∈ s, isLineBreak c = true) :
    ∃ u x t, s = u++x::t ∧ (∀ c ∈ u, isLineBreak c = false) ∧ isLineBreak x = true := by
  induction s with
  | nil => simp at h
  | cons c s ih =>
    cases hc : isLineBreak c with
    | true => exact ⟨[],c,s,rfl,by simp,hc⟩
    | false =>
      obtain ⟨u,x,t,rfl,hu,hx⟩ := ih (by simpa [hc] using h)
      exact ⟨c::u,x,t,rfl,List.forall_mem_cons.mpr ⟨hc,hu⟩,hx⟩

theorem filterMap_splitlines_append (hf : f [] = none) {y : Char} (hy : isLineBreak y = true)
    (s t : List Char) : (splitlines (s++y::t)).filterMap f =
      (splitlines s).filterMap f++(splitlines t).filterMap f := by
  induction hn : s.length using Nat.strong_induction_on generalizing s with
  | _ n ih =>
    by_cases h : ∃ c ∈ s, isLineBreak c = true
    · obtain ⟨u,x,r,rfl,hu,hx⟩ := exists_cut h
      have hlt : r.length < n := by
        rw [← hn,List.length_append,List.length_cons]
        omega
      rw [List.append_assoc,List.cons_append,filterMap_splitlines_cut hf hu hx,
        filterMap_splitlines_cut hf hu hx,ih _ hlt r rfl,List.append_assoc]
    · have hs : ∀ c ∈ s, isLineBreak c = false := by simpa using h
      rw [filterMap_splitlines_cut hf hs hy,filterMap_splitlines_line hf hs]

end

end CodexLb.PythonText
