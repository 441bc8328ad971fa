import CodexLb.JsonValues
import Mathlib.Data.List.Sort
import Mathlib.Tactic.IntervalCases

/-!
# The canonical text of a JSON value

The text a JSON writer produces when it sorts the rows of every object by key,
leaves out all blanks and writes every character outside of printable ASCII as an
escape. A character above the basic plane is written as two escapes.

The text determines the value up to the order of rows. A number with a fraction
is written as the text it is kept as, so such a text has to look like one.
-/
namespace CodexLb.JsonText
open Json

def hex4 (n : ℕ) : List Char :=
  [Nat.digitChar (n/4096%16),Nat.digitChar (n/256%16),Nat.digitChar (n/16%16),
    Nat.digitChar (n%16)]

def unicodeEscape (n : ℕ) : List Char := '\\':: 'u'::hex4 n

def shortEscapes : List (Char × Char) :=
  [('"','"'),('\\','\\'),('\n','n'),('\r','r'),('\t','t'),('\x08','b'),('\x0c','f')]

def escape (c : Char) : List Char :=
  match shortEscapes.find? fun q => q.1 = c with
  | some q => ['\\',q.2]
  | none =>
    if 0x20 ≤ c.toNat ∧ c.toNat ≤ 0x7e then [c]
    else if c.toNat < 0x10000 then unicodeEscape c.toNat
    else unicodeEscape (0xd800+(c.toNat-0x10000)/0x400)++
      unicodeEscape (0xdc00+(c.toNat-0x10000)%0x400)

def hexValue (c : Char) : ℕ := if c.isDigit then c.toNat-48 else c.toNat-87

def value4 (a b c d : Char) : ℕ :=
  ((hexValue a*16+hexValue b)*16+hexValue c)*16+hexValue d

/-- Reads one character back, also from a pair of escapes. -/
def unescape : List Char → Option (ℕ × List Char)
  | '\\':: 'u'::a::b::c::d::rest =>
    if 0xd800 ≤ value4 a b c d ∧ value4 a b c d < 0xdc00 then
      match rest with
      | '\\':: 'u'::a'::b'::c'::d'::rest =>
        some (0x10000+(value4 a b c d-0xd800)*0x400+(value4 a' b' c' d'-0xdc00),rest)
      | _ => none
    else some (value4 a b c d,rest)
  | '\\'::letter::rest =>
    (shortEscapes.find? fun q => q.2 = letter).map fun q => (q.1.toNat,rest)
  | c::rest => some (c.toNat,rest)
  | [] => none

variable {n : ℕ}

theorem hexValue_digitChar (h : n < 16) : hexValue (Nat.digitChar n) = n := by
  interval_cases n <;> rfl

theorem value4_hex4 (h : n < 0x10000) :
    value4 (Nat.digitChar (n/4096%16)) (Nat.digitChar (n/256%16)) (Nat.digitChar (n/16%16))
      (Nat.digitChar (n%16)) = n := by
  have hmod (m : ℕ) : m%16 < 16 := Nat.mod_lt m (by decide)
  rw [value4,hexValue_digitChar (hmod _),hexValue_digitChar (hmod _),
    hexValue_digitChar (hmod _),hexValue_digitChar (hmod _)]
  omega

variable {rest : List Char}

theorem unescape_short {q : Char × Char} (h : q ∈ shortEscapes) :
    unescape ('\\'::q.2::rest) = some (q.1.toNat,rest) := by
  simp only [shortEscapes,List.mem_cons,List.not_mem_nil,or_false] at h
  rcases h with rfl | rfl | rfl | rfl | rfl | rfl | rfl <;> rfl

variable {c : Char}

theorem unescape_plain (h : c ≠ '\\') : unescape (c::rest) = some (c.toNat,rest) := by
  unfold unescape
  split
  · next heq => exact absurd (List.cons.inj heq).1 h
  · next heq => exact absurd (List.cons.inj heq).1 h
  · next heq =>
      obtain ⟨rfl,rfl⟩ := List.cons.inj heq
      rfl
  · next heq => cases heq

theorem unescape_basic (h : n < 0x10000) (hbasic : n < 0xd800 ∨ 0xdc00 ≤ n) :
    unescape (unicodeEscape n++rest) = some (n,rest) := by
  have hn : ¬(0xd800 ≤ n ∧ n < 0xdc00) := by omega
  simp only [unicodeEscape,hex4,List.cons_append,List.nil_append,unescape,value4_hex4 h,
    if_neg hn]

variable {m : ℕ}

theorem unescape_pair (hm : m < 0x400) (hn : n < 0x400) :
    unescape ((unicodeEscape (0xd800+m)++unicodeEscape (0xdc00+n))++rest) =
      some (0x10000+m*0x400+n,rest) := by
  have hfirst := value4_hex4 (n := 0xd800+m) (by omega)
  have hsecond := value4_hex4 (n := 0xdc00+n) (by omega)
  have hhigh : 0xd800 ≤ 0xd800+m ∧ 0xd800+m < 0xdc00 := by omega
  simp only [unicodeEscape,hex4,List.cons_append,List.nil_append,unescape,hfirst,hsecond,
    if_pos hhigh,Nat.add_sub_cancel_left]

theorem toNat_range (c : Char) : c.toNat < 0xd800 ∨ 0xdfff < c.toNat ∧ c.toNat < 0x110000 :=
  c.valid

theorem unescape_escape : unescape (escape c++rest) = some (c.toNat,rest) := by
  have hrange := toNat_range c
  unfold escape
  split
  · next q hq =>
      have hfound := List.find?_some hq
      have hc : q.1 = c := of_decide_eq_true hfound
      rw [← hc]
      exact unescape_short (List.mem_of_find?_eq_some hq)
  · next hnone =>
      have hslash : c ≠ '\\' := by
        rintro rfl
        cases hnone
      split_ifs with hprint hbasic
      · exact unescape_plain hslash
      · exact unescape_basic hbasic (by omega)
      · have hcode : 0x10000+(c.toNat-0x10000)/0x400*0x400+(c.toNat-0x10000)%0x400 =
            c.toNat := by omega
        rw [unescape_pair (by omega) (by omega),hcode]

variable {r s : List Char}

theorem escape_inj {d : Char} (h : escape c++r = escape d++s) : c = d ∧ r = s := by
  have hread : some (c.toNat,r) = some (d.toNat,s) := by
    rw [← unescape_escape,h,unescape_escape]
  obtain ⟨hcode,hrest⟩ := Prod.mk.inj (Option.some.inj hread)
  exact ⟨Char.toNat_inj.1 hcode,hrest⟩

theorem escape_head : ∃ d rest, escape c = d::rest ∧ d ≠ '"' := by
  unfold escape
  split
  · exact ⟨_,_,rfl,by decide⟩
  · next hnone =>
      split_ifs
      · refine ⟨c,[],rfl,?_⟩
        rintro rfl
        cases hnone
      · exact ⟨_,_,rfl,by decide⟩
      · exact ⟨_,_,rfl,by decide⟩

def escaped (cs : List Char) : List Char := cs.flatMap escape

def quote (s : String) : List Char := '"'::(escaped s.toList++['"'])

theorem escaped_inj {cs ds : List Char} (h : escaped cs++ '"'::r = escaped ds++ '"'::s) :
    cs = ds ∧ r = s := by
  induction cs generalizing ds with
  | nil =>
    cases ds with
    | nil => exact ⟨rfl,(List.cons.inj h).2⟩
    | cons d ds =>
      obtain ⟨e,rest,hescape,hne⟩ := escape_head
      rw [escaped,escaped,List.flatMap_cons,hescape] at h
      exact absurd (List.cons.inj h).1.symm hne
  | cons c cs ih =>
    cases ds with
    | nil =>
      obtain ⟨e,rest,hescape,hne⟩ := escape_head
      rw [escaped,escaped,List.flatMap_cons,hescape] at h
      exact absurd (List.cons.inj h).1 hne
    | cons d ds =>
      rw [escaped,escaped,List.flatMap_cons,List.flatMap_cons,List.append_assoc,
        List.append_assoc] at h
      obtain ⟨hcd,hrest⟩ := escape_inj h
      obtain ⟨hcs,hr⟩ := ih hrest
      exact ⟨by rw [hcd,hcs],hr⟩

theorem quote_inj {a b : String} (h : quote a++r = quote b++s) : a = b ∧ r = s := by
  rw [quote,quote,List.cons_append,List.cons_append,List.append_assoc,List.append_assoc] at h
  obtain ⟨hab,hrs⟩ := escaped_inj (List.cons.inj h).2
  exact ⟨String.toList_inj.1 hab,hrs⟩

def inToken (c : Char) : Bool := c ≠ ',' && c ≠ ']' && c ≠ '}'

def isIntChar (c : Char) : Bool := c.isDigit || c = '-'

def startsNumber (c : Char) : Bool := isIntChar c || c = 'N' || c = 'I'

/-- A text as a number with a fraction has one. -/
def isFloatText (t : String) : Bool :=
  t.toList.head?.any startsNumber && t.toList.all inToken && t.toList.any (!isIntChar ·)

mutual

def valid : Json → Bool
  | .float t => isFloatText t
  | .arr xs => validAll xs
  | .obj rows => validRows rows
  | _ => true

def validAll : List Json → Bool
  | [] => true
  | x::xs => valid x && validAll xs

def validRows : List (String × Json) → Bool
  | [] => true
  | row::rows => validRow row && validRows rows

def validRow : String × Json → Bool
  | (_,value) => valid value

end

mutual

def sorted : Json → Json
  | .arr xs => .arr (sortedAll xs)
  | .obj rows => .obj ((sortedRows rows).insertionSort fun q r => q.1 ≤ r.1)
  | .null => .null
  | .bool b => .bool b
  | .int n => .int n
  | .float t => .float t
  | .str s => .str s

def sortedAll : List Json → List Json
  | [] => []
  | x::xs => sorted x::sortedAll xs

def sortedRows : List (String × Json) → List (String × Json)
  | [] => []
  | row::rows => sortedRow row::sortedRows rows

def sortedRow : String × Json → String × Json
  | (key,value) => (key,sorted value)

end

mutual

def text : Json → List Char
  | .null => ['n','u','l','l']
  | .bool true => ['t','r','u','e']
  | .bool false => ['f','a','l','s','e']
  | .int n => n.repr.toList
  | .float t => t.toList
  | .str s => quote s
  | .arr xs => '['::(elements xs++[']'])
  | .obj rows => '\x7b'::(members rows++['\x7d'])

def elements : List Json → List Char
  | [] => []
  | x::xs => text x++moreElements xs

def moreElements : List Json → List Char
  | [] => []
  | x::xs => ','::(text x++moreElements xs)

def members : List (String × Json) → List Char
  | [] => []
  | row::rows => member row++moreMembers rows

def moreMembers : List (String × Json) → List Char
  | [] => []
  | row::rows => ','::(member row++moreMembers rows)

def member : String × Json → List Char
  | (key,value) => quote key++ ':'::text value

end

def dumps (j : Json) : List Char := text (sorted j)

/-- What may follow a value. -/
def Stop (r : List Char) : Prop := ∀ c ∈ r.head?, inToken c = false

theorem stop_nil : Stop [] := nofun

theorem stop_cons (h : inToken c = false) : Stop (c::r) := by
  intro d hd
  rw [List.head?_cons,Option.mem_some_iff] at hd
  rw [← hd]
  exact h

variable {t : List Char}

theorem takeWhile_token (ht : ∀ c ∈ t, inToken c = true) (hr : Stop r) :
    (t++r).takeWhile inToken = t := by
  rw [List.takeWhile_append_of_pos ht]
  cases r with
  | nil => exact List.append_nil t
  | cons c r =>
    have hc : inToken c = false := hr c rfl
    rw [List.takeWhile_cons_of_neg (by rw [hc]; exact Bool.false_ne_true)]
    exact List.append_nil t

theorem token_inj {u : List Char} (ht : ∀ c ∈ t, inToken c = true)
    (hu : ∀ c ∈ u, inToken c = true) (hr : Stop r) (hs : Stop s) (h : t++r = u++s) :
    t = u ∧ r = s := by
  have htu : t = u := by rw [← takeWhile_token ht hr,h,takeWhile_token hu hs]
  rw [htu] at h
  exact ⟨htu,List.append_cancel_left h⟩

theorem repr_chars (n : ℤ) : ∀ c ∈ n.repr.toList, isIntChar c = true := by
  have hdigits (m : ℕ) : ∀ c ∈ m.repr.toList, isIntChar c = true := by
    intro c hc
    rw [Nat.repr_eq_ofList_toDigits,String.toList_ofList] at hc
    rw [isIntChar,Nat.isDigit_of_mem_toDigits (by decide) (by decide) hc]
    rfl
  cases n with
  | ofNat m => exact hdigits m
  | negSucc m =>
    intro c hc
    rw [Int.repr,String.toList_append] at hc
    rcases List.mem_append.1 hc with hc | hc
    · rw [List.mem_singleton.1 hc]; rfl
    · exact hdigits _ c hc

theorem repr_ne_nil (n : ℤ) : n.repr.toList ≠ [] := by
  have hdigits (m : ℕ) : m.repr.toList ≠ [] := by
    rw [Nat.repr_eq_ofList_toDigits,String.toList_ofList]
    exact Nat.toDigits_ne_nil
  cases n with
  | ofNat m => exact hdigits m
  | negSucc m =>
    rw [Int.repr,String.toList_append]
    exact List.append_ne_nil_of_right_ne_nil _ (hdigits _)

theorem digits_inj (h : m.repr.toList = n.repr.toList) : m = n := by
  rw [Nat.repr_eq_ofList_toDigits,Nat.repr_eq_ofList_toDigits,String.toList_ofList,
    String.toList_ofList] at h
  rw [← Nat.ofDigitChars_ten_toDigits (n := m),h,Nat.ofDigitChars_ten_toDigits]

theorem digits_ne_minus : n.repr.toList ≠ '-'::rest := by
  intro h
  rw [Nat.repr_eq_ofList_toDigits,String.toList_ofList] at h
  have hminus : '-' ∈ Nat.toDigits 10 n := h ▸ List.mem_cons_self
  cases Nat.isDigit_of_mem_toDigits (by decide) (by decide) hminus

theorem repr_inj {m n : ℤ} (h : m.repr.toList = n.repr.toList) : m = n := by
  have hneg (k : ℕ) : (Int.negSucc k).repr.toList = '-'::k.succ.repr.toList := by
    rw [Int.repr,String.toList_append]
    rfl
  cases m with
  | ofNat k =>
    cases n with
    | ofNat l => rw [digits_inj h]
    | negSucc l => rw [hneg] at h; exact absurd h (digits_ne_minus)
  | negSucc k =>
    cases n with
    | ofNat l => rw [hneg] at h; exact absurd h.symm (digits_ne_minus)
    | negSucc l =>
      rw [hneg,hneg] at h
      rw [Nat.succ.inj (digits_inj (List.cons.inj h).2)]

theorem inToken_of_int (h : isIntChar c = true) : inToken c = true := by
  have hne (d : Char) (hd : isIntChar d = false) : c ≠ d := by
    rintro rfl
    rw [hd] at h
    cases h
  simp [inToken,hne ',' rfl,hne ']' rfl,hne '}' rfl]

inductive Kind where
  | null | true | false | number | string | array | object | none
  deriving DecidableEq

def kindOf : Json → Kind
  | .null => .null
  | .bool true => .true
  | .bool false => .false
  | .int _ | .float _ => .number
  | .str _ => .string
  | .arr _ => .array
  | .obj _ => .object

def lead (c : Char) : Kind :=
  if c = 'n' then .null
  else if c = 't' then .true
  else if c = 'f' then .false
  else if c = '"' then .string
  else if c = '[' then .array
  else if c = '\x7b' then .object
  else if startsNumber c then .number
  else .none

theorem lead_number (h : startsNumber c = true) : lead c = .number := by
  have hne (d : Char) (hd : startsNumber d = false) : c ≠ d := by
    rintro rfl
    rw [hd] at h
    cases h
  rw [lead,if_neg (hne 'n' rfl),if_neg (hne 't' rfl),if_neg (hne 'f' rfl),if_neg (hne '"' rfl),
    if_neg (hne '[' rfl),if_neg (hne '\x7b' rfl),if_pos h]

variable {j : Json}

/-- The first character of a text tells the kind of the value. -/
theorem text_lead (h : valid j = true) : ∃ c rest, text j = c::rest ∧ lead c = kindOf j := by
  cases j with
  | null | str s | arr xs | obj rows => exact ⟨_,_,rfl,rfl⟩
  | bool b =>
    cases b with
    | true | false => exact ⟨_,_,rfl,rfl⟩
  | int n =>
    have hchars := repr_chars n
    rw [text]
    cases hrepr : n.repr.toList with
    | nil => exact absurd hrepr (repr_ne_nil n)
    | cons c rest =>
      rw [hrepr] at hchars
      refine ⟨c,rest,rfl,lead_number ?_⟩
      rw [startsNumber,hchars c List.mem_cons_self]
      rfl
  | float t =>
    rw [valid,isFloatText,Bool.and_eq_true,Bool.and_eq_true] at h
    rw [text]
    cases ht : t.toList with
    | nil => rw [ht] at h; cases h.1.1
    | cons c rest =>
      rw [ht] at h
      exact ⟨c,rest,rfl,lead_number h.1.1⟩

variable {i : Json}

theorem kind_eq (hi : valid i = true) (hj : valid j = true) (h : text i++r = text j++s) :
    kindOf i = kindOf j := by
  obtain ⟨c,rest,hc,hkind⟩ := text_lead hi
  obtain ⟨d,rest',hd,hkind'⟩ := text_lead hj
  rw [hc,hd] at h
  rw [← hkind,← hkind',(List.cons.inj h).1]

theorem text_ne_close (hj : valid j = true) (hc : lead c = .none) : c::r ≠ text j++s := by
  obtain ⟨d,rest,hd,hkind⟩ := text_lead hj
  intro h
  rw [hd] at h
  rw [← (List.cons.inj h).1,hc] at hkind
  cases j with
  | bool b => cases b <;> cases hkind
  | _ => cases hkind

theorem number_inj (hi : valid i = true) (hj : valid j = true) (hkind : kindOf i = .number)
    (hkind' : kindOf j = .number) (hr : Stop r) (hs : Stop s) (h : text i++r = text j++s) :
    i = j ∧ r = s := by
  have hint (n : ℤ) : ∀ c ∈ n.repr.toList, inToken c = true :=
    fun c hc => inToken_of_int (repr_chars n c hc)
  have hfloat {t : String} (ht : valid (.float t) = true) : (∀ c ∈ t.toList, inToken c = true) ∧
      ∀ n : ℤ, n.repr.toList ≠ t.toList := by
    rw [valid,isFloatText,Bool.and_eq_true,Bool.and_eq_true,List.all_eq_true,
      List.any_eq_true] at ht
    refine ⟨ht.1.2,fun n heq => ?_⟩
    obtain ⟨c,hc,hfraction⟩ := ht.2
    rw [repr_chars n c (heq ▸ hc)] at hfraction
    cases hfraction
  cases i with
  | int m =>
    cases j with
    | int n =>
      obtain ⟨htext,hrest⟩ := token_inj (hint m) (hint n) hr hs h
      exact ⟨by rw [repr_inj htext],hrest⟩
    | float t =>
      obtain ⟨htext,-⟩ := token_inj (hint m) (hfloat hj).1 hr hs h
      exact absurd htext ((hfloat hj).2 m)
    | bool b => cases b <;> cases hkind'
    | _ => cases hkind'
  | float t =>
    cases j with
    | int n =>
      obtain ⟨htext,-⟩ := token_inj (hfloat hi).1 (hint n) hr hs h
      exact absurd htext.symm ((hfloat hi).2 n)
    | float u =>
      obtain ⟨htext,hrest⟩ := token_inj (hfloat hi).1 (hfloat hj).1 hr hs h
      exact ⟨by rw [String.toList_inj.1 htext],hrest⟩
    | bool b => cases b <;> cases hkind'
    | _ => cases hkind'
  | bool b => cases b <;> cases hkind
  | _ => cases hkind

theorem stop_comma : Stop (','::r) := stop_cons rfl

theorem stop_moreElements {xs : List Json} : Stop (moreElements xs++ ']'::r) := by
  cases xs with
  | nil => exact stop_cons rfl
  | cons x xs => exact stop_comma

variable {rows : List (String × Json)}

theorem stop_moreMembers : Stop (moreMembers rows++ '\x7d'::r) := by
  cases rows with
  | nil => exact stop_cons rfl
  | cons row rows => exact stop_comma

/-- Two lists with the same elements text have the same text behind a further element. -/
theorem moreElements_of_elements {xs ys : List Json} (hxs : validAll xs = true)
    (hys : validAll ys = true) (h : elements xs++ ']'::r = elements ys++ ']'::s) :
    moreElements xs++ ']'::r = moreElements ys++ ']'::s := by
  have hopen {z : Json} {zs : List Json} {u v : List Char} (hz : validAll (z::zs) = true) :
      ']'::u ≠ elements (z::zs)++v := by
    rw [validAll,Bool.and_eq_true] at hz
    rw [elements,List.append_assoc]
    exact text_ne_close hz.1 rfl
  cases xs <;> cases ys
  · exact h
  · exact absurd h (hopen hys)
  · exact absurd h.symm (hopen hxs)
  · exact congrArg (','::·) h

theorem moreMembers_of_members {rows rows' : List (String × Json)}
    (h : members rows++ '\x7d'::r = members rows'++ '\x7d'::s) :
    moreMembers rows++ '\x7d'::r = moreMembers rows'++ '\x7d'::s := by
  rcases rows with _ | ⟨⟨_,_⟩,_⟩ <;> rcases rows' with _ | ⟨⟨_,_⟩,_⟩
  · exact h
  · exact absurd (List.cons.inj h).1 (by decide)
  · exact absurd (List.cons.inj h).1 (by decide)
  · exact congrArg (','::·) h

mutual

theorem text_inj : ∀ {i j : Json} {r s : List Char}, valid i = true → valid j = true →
    Stop r → Stop s → text i++r = text j++s → i = j ∧ r = s
  | .null,j,r,s,hi,hj,hr,hs,h => by
    have hkind := kind_eq hi hj h
    cases j with
    | null => exact ⟨rfl,List.append_cancel_left h⟩
    | bool b => cases b <;> cases hkind
    | _ => cases hkind
  | .bool a,j,r,s,hi,hj,hr,hs,h => by
    have hkind := kind_eq hi hj h
    cases j with
    | bool b =>
      have hab : a = b := by cases a <;> cases b <;> first | rfl | cases hkind
      subst hab
      exact ⟨rfl,List.append_cancel_left h⟩
    | _ => cases a <;> cases hkind
  | .int n,j,r,s,hi,hj,hr,hs,h => number_inj hi hj rfl (kind_eq hi hj h).symm hr hs h
  | .float t,j,r,s,hi,hj,hr,hs,h => number_inj hi hj rfl (kind_eq hi hj h).symm hr hs h
  | .str a,j,r,s,hi,hj,hr,hs,h => by
    have hkind := kind_eq hi hj h
    cases j with
    | str b =>
      obtain ⟨hab,hrest⟩ := quote_inj h
      exact ⟨by rw [hab],hrest⟩
    | bool b => cases b <;> cases hkind
    | _ => cases hkind
  | .arr xs,j,r,s,hi,hj,hr,hs,h => by
    have hkind := kind_eq hi hj h
    cases j with
    | arr ys =>
      rw [text,text,List.cons_append,List.cons_append,List.append_assoc,
        List.append_assoc] at h
      obtain ⟨hxs,hrest⟩ := moreElements_inj hi hj (moreElements_of_elements hi hj (List.cons.inj h).2)
      exact ⟨by rw [hxs],hrest⟩
    | bool b => cases b <;> cases hkind
    | _ => cases hkind
  | .obj rows,j,r,s,hi,hj,hr,hs,h => by
    have hkind := kind_eq hi hj h
    cases j with
    | obj rows' =>
      rw [text,text,List.cons_append,List.cons_append,List.append_assoc,
        List.append_assoc] at h
      obtain ⟨hrows,hrest⟩ := moreMembers_inj hi hj (moreMembers_of_members (List.cons.inj h).2)
      exact ⟨by rw [hrows],hrest⟩
    | bool b => cases b <;> cases hkind
    | _ => cases hkind

theorem moreElements_inj : ∀ {xs ys : List Json} {r s : List Char}, validAll xs = true →
    validAll ys = true → moreElements xs++ ']'::r = moreElements ys++ ']'::s → xs = ys ∧ r = s
  | [],[],r,s,_,_,h => ⟨rfl,(List.cons.inj h).2⟩
  | [],y::ys,r,s,_,_,h => absurd (List.cons.inj h).1 (by decide)
  | x::xs,[],r,s,_,_,h => absurd (List.cons.inj h).1 (by decide)
  | x::xs,y::ys,r,s,hxs,hys,h => by
    rw [validAll,Bool.and_eq_true] at hxs hys
    rw [moreElements,moreElements,List.cons_append,List.cons_append,List.append_assoc,
      List.append_assoc] at h
    obtain ⟨hx,hrest⟩ := text_inj hxs.1 hys.1 (stop_moreElements) (stop_moreElements)
      (List.cons.inj h).2
    obtain ⟨hmore,hr⟩ := moreElements_inj hxs.2 hys.2 hrest
    exact ⟨by rw [hx,hmore],hr⟩

theorem moreMembers_inj : ∀ {rows rows' : List (String × Json)} {r s : List Char},
    validRows rows = true → validRows rows' = true →
    moreMembers rows++ '\x7d'::r = moreMembers rows'++ '\x7d'::s → rows = rows' ∧ r = s
  | [],[],r,s,_,_,h => ⟨rfl,(List.cons.inj h).2⟩
  | [],row::rows,r,s,_,_,h => absurd (List.cons.inj h).1 (by decide)
  | row::rows,[],r,s,_,_,h => absurd (List.cons.inj h).1 (by decide)
  | row::rows,row'::rows',r,s,hrows,hrows',h => by
    rw [validRows,Bool.and_eq_true] at hrows hrows'
    rw [moreMembers,moreMembers,List.cons_append,List.cons_append,List.append_assoc,
      List.append_assoc] at h
    obtain ⟨hrow,hrest⟩ := member_inj hrows.1 hrows'.1 (stop_moreMembers)
      (stop_moreMembers) (List.cons.inj h).2
    obtain ⟨hmore,hr⟩ := moreMembers_inj hrows.2 hrows'.2 hrest
    exact ⟨by rw [hrow,hmore],hr⟩

theorem member_inj : ∀ {row row' : String × Json} {r s : List Char}, validRow row = true →
    validRow row' = true → Stop r → Stop s → member row++r = member row'++s →
    row = row' ∧ r = s
  | (key,value),(key',value'),r,s,hrow,hrow',hr,hs,h => by
    rw [member,member,List.append_assoc,List.append_assoc] at h
    obtain ⟨hkey,hrest⟩ := quote_inj h
    obtain ⟨hvalue,hr⟩ := text_inj hrow hrow' hr hs (List.cons.inj hrest).2
    exact ⟨by rw [hkey,hvalue],hr⟩

end

theorem validRows_iff : validRows rows = true ↔ ∀ row ∈ rows, validRow row = true := by
  induction rows with
  | nil => exact ⟨fun _ _ h => absurd h List.not_mem_nil,fun _ => rfl⟩
  | cons row rows ih => rw [validRows,Bool.and_eq_true,ih,List.forall_mem_cons]

mutual

theorem valid_sorted : ∀ {j : Json}, valid j = true → valid (sorted j) = true
  | .arr xs,h => @validAll_sorted xs h
  | .obj rows,h => by
    have hrows := validRows_iff.1 (@validRows_sorted rows h)
    rw [sorted,valid,validRows_iff]
    exact fun row hrow => hrows row ((List.perm_insertionSort _ _).mem_iff.1 hrow)
  | .null,_ => rfl
  | .bool _,_ => rfl
  | .int _,_ => rfl
  | .float _,h => h
  | .str _,_ => rfl

theorem validAll_sorted : ∀ {xs : List Json}, validAll xs = true → validAll (sortedAll xs) = true
  | [],_ => rfl
  | x::xs,h => by
    rw [validAll,Bool.and_eq_true] at h
    rw [sortedAll,validAll,valid_sorted h.1,validAll_sorted h.2]
    rfl

theorem validRows_sorted : ∀ {rows : List (String × Json)}, validRows rows = true →
    validRows (sortedRows rows) = true
  | [],_ => rfl
  | row::rows,h => by
    rw [validRows,Bool.and_eq_true] at h
    rw [sortedRows,validRows,validRow_sorted h.1,validRows_sorted h.2]
    rfl

theorem validRow_sorted : ∀ {row : String × Json}, validRow row = true →
    validRow (sortedRow row) = true
  | (_,value),h => valid_sorted (j := value) h

end

/-- Values have the same text only if they differ in nothing but the order of rows. -/
theorem dumps_eq_iff (hi : valid i = true) (hj : valid j = true) :
    dumps i = dumps j ↔ sorted i = sorted j := by
  refine ⟨fun h => ?_,fun h => by rw [dumps,dumps,h]⟩
  have htext : text (sorted i)++[] = text (sorted j)++[] := by
    rw [List.append_nil,List.append_nil]
    exact h
  exact (text_inj (valid_sorted hi) (valid_sorted hj) stop_nil stop_nil htext).1

example : dumps (.obj [("b",.int (-12)),("a",.arr [.null,.str "é"])]) =
    "\x7b\"a\":[null,\"\\u00e9\"],\"b\":-12\x7d".toList := by decide +kernel

end CodexLb.JsonText
