import CodexLb.JsonText

/-!
# Reading a JSON text

A text is read in two steps: it is cut into tokens, and the tokens spell a
value. Blanks may stand between tokens, characters in quotes may be escaped or
not, and a key that is repeated keeps its last value.
-/
namespace CodexLb.JsonGrammar
open Json JsonText

inductive Token where
  | punct (c : Char)
  | str (cs : List Char)
  | scalar (v : Json)

def isBlank (c : Char) : Bool := c ∈ [' ','\t','\n','\r']

def isPunct (c : Char) : Bool := c ∈ ['\x7b','\x7d','[',']',',',':']

def inRange (a b : ℕ) (c : Char) : Bool := a ≤ c.toNat && c.toNat ≤ b

/-- Letters, digits, signs and the point. -/
def isWordChar (c : Char) : Bool :=
  inRange 48 57 c || inRange 65 90 c || inRange 97 122 c || c ∈ ['+','-','.']

def isHex (c : Char) : Bool := inRange 48 57 c || inRange 65 70 c || inRange 97 102 c

def hexCode (a b c d : Char) : ℕ := value4 a.toLower b.toLower c.toLower d.toLower

inductive Escape : List Char → Char → Prop
  | short {q : Char × Char} (h : q ∈ ('/','/')::shortEscapes) : Escape ['\\',q.2] q.1
  | unicode {a b c d e : Char} (h : [a,b,c,d].all isHex = true) (he : hexCode a b c d = e.toNat) :
      Escape ['\\','u',a,b,c,d] e
  | pair {a b c d a' b' c' d' e : Char} (h : [a,b,c,d,a',b',c',d'].all isHex = true)
      (hhigh : 0xd800 ≤ hexCode a b c d ∧ hexCode a b c d < 0xdc00)
      (hlow : 0xdc00 ≤ hexCode a' b' c' d' ∧ hexCode a' b' c' d' < 0xe000)
      (he : 0x10000+(hexCode a b c d-0xd800)*0x400+(hexCode a' b' c' d'-0xdc00) = e.toNat) :
      Escape ['\\','u',a,b,c,d,'\\','u',a',b',c',d'] e

/-- What stands between quotes, and the text it spells. -/
inductive Body : List Char → List Char → Prop
  | nil : Body [] []
  | raw {c : Char} {b cs : List Char} (h : 0x20 ≤ c.toNat ∧ c ≠ '"' ∧ c ≠ '\\') (hb : Body b cs) :
      Body (c::b) (c::cs)
  | escape {e b cs : List Char} {c : Char} (h : Escape e c) (hb : Body b cs) :
      Body (e++b) (c::cs)

def IsDigits (ds : List Char) : Prop := ds ≠ [] ∧ ∀ c ∈ ds, c.isDigit = true

/-- Literals and numbers. -/
inductive Word : List Char → Json → Prop
  | null : Word ['n','u','l','l'] .null
  | true : Word ['t','r','u','e'] (.bool true)
  | false : Word ['f','a','l','s','e'] (.bool false)
  | int (n : ℤ) : Word n.repr.toList (.int n)
  | minusZero : Word ['-','0'] (.int 0)
  | special {t : String} (h : t ∈ ["NaN","Infinity","-Infinity"]) : Word t.toList (.float t)
  | float {t : String} {sign frac exp : List Char} {n : ℕ} (hsign : sign = [] ∨ sign = ['-'])
      (hfrac : frac = [] ∨ ∃ ds, IsDigits ds ∧ frac = '.'::ds)
      (hexp : exp = [] ∨ ∃ e s ds, e ∈ ['e','E'] ∧ s ∈ [[],['+'],['-']] ∧ IsDigits ds ∧
        exp = e::(s++ds))
      (hne : frac ≠ [] ∨ exp ≠ []) (ht : t.toList = sign++n.repr.toList++frac++exp) :
      Word t.toList (.float t)

def isWord (w : List Char) : Bool := !w.isEmpty && w.all isWordChar

def WordEnds (t : List Char) : Prop := ∀ c ∈ t.head?, isWordChar c = false

inductive Lexes : List Char → List Token → Prop
  | nil : Lexes [] []
  | blank {c : Char} {t : List Char} {ks : List Token} (h : isBlank c = true) (ht : Lexes t ks) :
      Lexes (c::t) ks
  | punct {c : Char} {t : List Char} {ks : List Token} (h : isPunct c = true) (ht : Lexes t ks) :
      Lexes (c::t) (.punct c::ks)
  | str {b cs t : List Char} {ks : List Token} (h : Body b cs) (ht : Lexes t ks) :
      Lexes ('"'::(b++ '"'::t)) (.str cs::ks)
  | word {w t : List Char} {v : Json} {ks : List Token} (h : Word w v) (hw : isWord w = true)
      (hend : WordEnds t) (ht : Lexes t ks) : Lexes (w++t) (.scalar v::ks)

mutual

def tokens : Json → List Token
  | .str s => [.str s.toList]
  | .arr xs => .punct '['::(elementTokens xs++[.punct ']'])
  | .obj rows => .punct '\x7b'::(memberTokens rows++[.punct '\x7d'])
  | v => [.scalar v]

def elementTokens : List Json → List Token
  | [] => []
  | x::xs => tokens x++moreElementTokens xs

def moreElementTokens : List Json → List Token
  | [] => []
  | x::xs => .punct ','::(tokens x++moreElementTokens xs)

def memberTokens : List (String × Json) → List Token
  | [] => []
  | row::rows => rowTokens row++moreMemberTokens rows

def moreMemberTokens : List (String × Json) → List Token
  | [] => []
  | row::rows => .punct ','::(rowTokens row++moreMemberTokens rows)

def rowTokens : String × Json → List Token
  | (key,value) => .str key.toList::.punct ':'::tokens value

end

mutual

/-- The value without repeated keys: a later row replaces the value of an earlier one. -/
def collapse : Json → Json
  | .arr xs => .arr (collapseAll xs)
  | .obj rows => .obj (collapseRows rows .empty).rows
  | v => v

def collapseAll : List Json → List Json
  | [] => []
  | x::xs => collapse x::collapseAll xs

def collapseRows : List (String × Json) → Object → Object
  | [],o => o
  | row::rows,o => collapseRows rows (collapseRow row o)

def collapseRow : String × Json → Object → Object
  | (key,value),o => o.set key (collapse value)

end

def ReadsAs (t : List Char) (v : Json) : Prop := ∃ j, Lexes t (tokens j) ∧ collapse j = v

inductive Mode where
  | plain | quoted | escaped
  deriving DecidableEq

/-- Whether the next character stands in quotes, if it may stand there. -/
def Mode.next : Mode → Char → Option Mode
  | .plain,c => if c = '"' then some .quoted else if c.toNat < 0x80 then some .plain else none
  | .quoted,c =>
    if c = '"' then some .plain
    else if c = '\\' then some .escaped
    else if 0x20 ≤ c.toNat then some .quoted else none
  | .escaped,c => if inRange 0x20 0x7f c then some .quoted else none

def weight (c : Char) : ℤ :=
  if c ∈ ['\x7b','['] then 1 else if c ∈ ['\x7d',']'] then -1 else 0

/-- One character further; brackets outside of quotes are counted. -/
def step (s : Mode × ℤ) (c : Char) : Option (Mode × ℤ) :=
  (s.1.next c).map fun m => (m,if s.1 = .plain then s.2+weight c else s.2)

def scan (s : Mode × ℤ) (t : List Char) : Option (Mode × ℤ) := t.foldlM step s

def Token.weight : Token → ℤ
  | .punct c => JsonGrammar.weight c
  | _ => 0

def total (ks : List Token) : ℤ := (ks.map Token.weight).sum

section
variable {c : Char}

theorem toNat_ne {d : Char} (h : c.toNat ≠ d.toNat) : c ≠ d := by
  rintro rfl
  exact h rfl

theorem word_printed (h : isWordChar c = true) : inRange 0x20 0x7e c = true := by
  simp only [isWordChar,inRange,Bool.or_eq_true,Bool.and_eq_true,decide_eq_true_eq,
    List.mem_cons,List.not_mem_nil,or_false] at h ⊢
  rcases h with h | rfl | rfl | rfl
  · omega
  all_goals decide

theorem punct_printed (h : isPunct c = true) :
    inRange 0x20 0x7e c = true ∧ Mode.next .plain c = some .plain := by
  simp only [isPunct,List.mem_cons,List.not_mem_nil,or_false,decide_eq_true_eq] at h
  rcases h with rfl | rfl | rfl | rfl | rfl | rfl <;> exact ⟨rfl,rfl⟩

theorem hex_printed (h : isHex c = true) : inRange 0x20 0x7e c = true := by
  simp only [isHex,inRange,Bool.or_eq_true,Bool.and_eq_true,decide_eq_true_eq] at h ⊢
  omega

theorem ge_of_printed (h : inRange 0x20 0x7e c = true) : 0x20 ≤ c.toNat :=
  of_decide_eq_true (Bool.and_eq_true_iff.mp h).1

theorem plain_of_word (h : isWordChar c = true) :
    Mode.next .plain c = some .plain ∧ weight c = 0 := by
  have hc : c.toNat < 0x80 ∧ ∀ x ∈ ['"','\x7b','[','\x7d',']'], c ≠ x := by
    simp only [isWordChar,inRange,Bool.or_eq_true,Bool.and_eq_true,decide_eq_true_eq,
      List.mem_cons,List.not_mem_nil,or_false] at h
    rcases h with h | rfl | rfl | rfl
    · refine ⟨by omega,fun x hx => toNat_ne ?_⟩
      simp only [List.mem_cons,List.not_mem_nil,or_false] at hx
      rcases hx with rfl | rfl | rfl | rfl | rfl <;> simp <;> omega
    all_goals simp
  simp only [List.forall_mem_cons] at hc
  exact ⟨by rw [Mode.next,if_neg hc.2.1,if_pos hc.1],by simp [weight,hc]⟩

theorem quoted_of_hex (h : isHex c = true) : Mode.next .quoted c = some .quoted := by
  simp only [isHex,inRange,Bool.or_eq_true,Bool.and_eq_true,decide_eq_true_eq] at h
  rw [Mode.next,if_neg (toNat_ne (by simp; omega)),if_neg (toNat_ne (by simp; omega)),
    if_pos (by omega)]

end

variable {d : ℤ} {c : Char} {t : List Char} {ks : List Token}

theorem scan_append (s : Mode × ℤ) (t u : List Char) : scan s (t++u) = (scan s t).bind (scan · u) :=
  List.foldlM_append ..

variable {m : Mode}

theorem scan_cons {n : Mode} (h : m.next c = some n) (t : List Char) :
    scan (m,d) (c::t) = scan (n,if m = .plain then d+weight c else d) t := by
  rw [scan,List.foldlM_cons,step,h]
  rfl

theorem scan_all (h : ∀ c ∈ t, m.next c = some m) (hw : m = .plain → ∀ c ∈ t, weight c = 0) :
    scan (m,d) t = some (m,d) := by
  induction t with
  | nil => rfl
  | cons c t ih =>
    rw [List.forall_mem_cons] at h
    have hd : (if m = .plain then d+weight c else d) = d := by
      split_ifs with hm
      · rw [hw hm c List.mem_cons_self,add_zero]
      · rfl
    rw [scan_cons h.1,hd]
    exact ih h.2 fun hm e he => hw hm e (List.mem_cons_of_mem c he)

theorem scan_hex (h : t.all isHex = true) : scan (.quoted,d) t = some (.quoted,d) :=
  scan_all (fun c hc => quoted_of_hex (List.all_eq_true.mp h c hc)) nofun

variable {e : List Char}

theorem Escape.scan (h : Escape e c) : JsonGrammar.scan (.quoted,d) e = some (.quoted,d) := by
  cases h with
  | short h =>
    simp only [shortEscapes,List.mem_cons,List.not_mem_nil,or_false] at h
    rcases h with rfl | rfl | rfl | rfl | rfl | rfl | rfl | rfl <;> rfl
  | unicode h he => exact scan_hex (t := [_,_,_,_]) h
  | @pair a b c e a' b' c' e' _ h =>
    rw [show [a,b,c,e,a',b',c',e'] = [a,b,c,e]++[a',b',c',e'] from rfl,List.all_append,
      Bool.and_eq_true] at h
    have hsplit := scan_append (.quoted,d) [a,b,c,e] ['\\','u',a',b',c',e']
    rw [scan_hex h.1] at hsplit
    exact hsplit.trans (scan_hex (t := [a',b',c',e']) h.2)

variable {b cs : List Char}

theorem Body.scan (h : Body b cs) : JsonGrammar.scan (.quoted,d) b = some (.quoted,d) := by
  induction h with
  | nil => rfl
  | raw h _ ih =>
    rw [scan_cons (by rw [Mode.next,if_neg h.2.1,if_neg h.2.2,if_pos h.1])]
    exact ih
  | escape h _ ih =>
    rw [scan_append,h.scan]
    exact ih

theorem Lexes.scan (h : Lexes t ks) : JsonGrammar.scan (.plain,d) t = some (.plain,d+total ks) := by
  induction h generalizing d with
  | nil => simp [JsonGrammar.scan,total]
  | @blank c t ks h _ ih =>
    have hc : Mode.next .plain c = some .plain ∧ weight c = 0 := by
      simp only [isBlank,List.mem_cons,List.not_mem_nil,or_false,decide_eq_true_eq] at h
      rcases h with rfl | rfl | rfl | rfl <;> decide
    rw [scan_cons hc.1,if_pos rfl,hc.2,add_zero,ih]
  | punct h _ ih =>
    rw [scan_cons (punct_printed h).2,if_pos rfl,ih,add_assoc]
    rfl
  | str h _ ih =>
    rw [scan_cons (n := .quoted) rfl,if_pos rfl,scan_append,h.scan,Option.bind_some,
      scan_cons (n := .plain) rfl,if_neg (by decide),ih]
    simp [total,Token.weight,weight]
  | word h hw _ _ ih =>
    rw [isWord,Bool.and_eq_true,List.all_eq_true] at hw
    rw [scan_append,scan_all (fun c hc => (plain_of_word (hw.2 c hc)).1)
      fun _ c hc => (plain_of_word (hw.2 c hc)).2,Option.bind_some,ih]
    simp [total,Token.weight]

theorem Escape.ge (h : Escape e c) : ∀ d ∈ e, 0x20 ≤ d.toNat := by
  cases h with
  | short h =>
    simp only [shortEscapes,List.mem_cons,List.not_mem_nil,or_false] at h
    rcases h with rfl | rfl | rfl | rfl | rfl | rfl | rfl | rfl <;> simp
  | unicode h he =>
    rw [List.all_eq_true] at h
    exact List.forall_mem_cons.mpr ⟨by decide,List.forall_mem_cons.mpr ⟨by decide,
      fun d hd => ge_of_printed (hex_printed (h d hd))⟩⟩
  | pair h hhigh hlow he =>
    have hge := fun d hd => ge_of_printed (hex_printed (List.all_eq_true.mp h d hd))
    simp only [List.forall_mem_cons] at hge ⊢
    obtain ⟨h1,h2,h3,h4,hlast⟩ := hge
    exact ⟨by decide,by decide,h1,h2,h3,h4,by decide,by decide,hlast⟩

theorem Body.ge (h : Body b cs) : ∀ d ∈ b, 0x20 ≤ d.toNat := by
  induction h with
  | nil => simp
  | raw h _ ih => exact List.forall_mem_cons.mpr ⟨h.1,ih⟩
  | escape h _ ih => exact List.forall_mem_append.mpr ⟨h.ge,ih⟩

theorem Lexes.control (h : Lexes t ks) : ∀ c ∈ t, c.toNat < 0x20 → isBlank c = true := by
  induction h with
  | nil => simp
  | blank h _ ih => exact List.forall_mem_cons.mpr ⟨fun _ => h,ih⟩
  | punct h _ ih => exact List.forall_mem_cons.mpr ⟨fun hc => absurd (ge_of_printed (punct_printed h).1) (by omega),ih⟩
  | str h _ ih =>
    refine List.forall_mem_cons.mpr ⟨fun hc => absurd hc (by decide),?_⟩
    refine List.forall_mem_append.mpr ⟨fun c hc hlt => absurd (h.ge c hc) (by omega),?_⟩
    exact List.forall_mem_cons.mpr ⟨fun hc => absurd hc (by decide),ih⟩
  | word _ hw _ _ ih =>
    rw [isWord,Bool.and_eq_true,List.all_eq_true] at hw
    exact List.forall_mem_append.mpr
      ⟨fun c hc hlt => absurd (ge_of_printed (word_printed (hw.2 c hc))) (by omega),ih⟩

variable {l : List Char} {x : Char}

/-- The first part has no `x`, so that the cut at an `x` is behind it. -/
theorem append_split {a : List Char} (h : a++b = l++x::t) (hx : x ∉ a) :
    ∃ l', l = a++l' ∧ b = l'++x::t := by
  rcases List.append_eq_append_iff.mp h with ⟨l',hl,hb⟩ | ⟨l',ha,ht⟩
  · exact ⟨l',hl,hb⟩
  · cases l' with
    | nil => exact ⟨[],by simpa using ha.symm,by simpa using ht.symm⟩
    | cons c l' =>
      cases ht
      exact absurd (ha ▸ List.mem_append_right l List.mem_cons_self) hx

theorem WordEnds.append {u : List Char} (h : WordEnds (t++u)) : WordEnds t := by
  cases t with
  | nil => exact nofun
  | cons c t => exact h

/-- A text is cut into tokens line by line. -/
theorem Lexes.split (hx : x.toNat < 0x20) (h : Lexes (l++x::t) ks) :
    ∃ k k', ks = k++k' ∧ Lexes l k ∧ Lexes t k' := by
  generalize hu : l++x::t = u at h
  induction h generalizing l with
  | nil => simp at hu
  | @blank c u ks hc hu' ih =>
    cases l with
    | nil =>
      cases hu
      exact ⟨[],ks,rfl,.nil,hu'⟩
    | cons d l =>
      cases hu
      obtain ⟨k,k',rfl,hl,ht⟩ := ih rfl
      exact ⟨k,k',rfl,.blank hc hl,ht⟩
  | @punct c u ks hc hu' ih =>
    cases l with
    | nil =>
      cases hu
      exact absurd (ge_of_printed (punct_printed hc).1) (by omega)
    | cons d l =>
      cases hu
      obtain ⟨k,k',rfl,hl,ht⟩ := ih rfl
      exact ⟨_::k,k',rfl,.punct hc hl,ht⟩
  | @str b cs u ks hb hu' ih =>
    cases l with
    | nil =>
      cases hu
      exact absurd hx (by decide)
    | cons d l =>
      obtain ⟨rfl,hrest⟩ := List.cons.inj hu
      have hnot : x ∉ b++['"'] := by
        intro hmem
        rcases List.mem_append.mp hmem with hmem | hmem
        · exact absurd (hb.ge x hmem) (by omega)
        · exact absurd hx (by rw [List.mem_singleton.mp hmem]; decide)
      obtain ⟨l',rfl,rfl⟩ := append_split (a := b++['"']) (b := u)
        (by simpa using hrest.symm) hnot
      obtain ⟨k,k',rfl,hl,ht⟩ := ih rfl
      exact ⟨_::k,k',rfl,by simpa using Lexes.str hb hl,ht⟩
  | @word w u v ks hw hword hend hu' ih =>
    have hnot : x ∉ w := by
      intro hmem
      rw [isWord,Bool.and_eq_true,List.all_eq_true] at hword
      exact absurd (ge_of_printed (word_printed (hword.2 x hmem))) (by omega)
    obtain ⟨l',rfl,rfl⟩ := append_split hu.symm hnot
    obtain ⟨k,k',rfl,hl,ht⟩ := ih rfl
    exact ⟨_::k,k',rfl,.word hw hword hend.append hl,ht⟩

variable {k' : List Token}

theorem Lexes.join {k : List Token} (h : Lexes l k) (ht : Lexes t k') :
    Lexes (l++ '\n'::t) (k++k') := by
  induction h with
  | nil => exact .blank rfl ht
  | blank hc _ ih => exact .blank hc ih
  | punct hc _ ih => exact .punct hc ih
  | str hb _ ih => simpa using Lexes.str hb ih
  | @word w u v ks hw hword hend _ ih =>
    rw [List.append_assoc]
    refine .word hw hword ?_ ih
    cases u with
    | nil =>
      rintro c hc
      cases hc
      rfl
    | cons c u => exact hend

theorem Lexes.of_space (h : Lexes (' '::t) ks) : Lexes t ks := by
  generalize hu : ' '::t = u at h
  cases h with
  | nil | str _ _ => cases hu
  | blank _ ht =>
    cases hu
    exact ht
  | punct hc _ =>
    cases hu
    cases hc
  | @word w _ _ _ _ hw _ _ =>
    cases w with
    | nil => cases hw
    | cons c w =>
      cases hu
      cases hw

theorem Lexes.eq_nil (h : Lexes t ks) (ht : ∀ c ∈ t, isBlank c = true) : ks = [] := by
  induction h with
  | nil => rfl
  | blank _ _ ih => exact ih (List.forall_mem_cons.mp ht).2
  | @punct c _ _ hc _ _ =>
    have hblank := ht c List.mem_cons_self
    simp only [isPunct,List.mem_cons,List.not_mem_nil,or_false,decide_eq_true_eq] at hc
    rcases hc with rfl | rfl | rfl | rfl | rfl | rfl <;> cases hblank
  | str _ _ _ => cases ht '"' List.mem_cons_self
  | @word w _ _ _ _ hw _ _ _ =>
    cases w with
    | nil => cases hw
    | cons c w =>
      have hblank := ht c List.mem_cons_self
      simp only [isBlank,List.mem_cons,List.not_mem_nil,or_false,decide_eq_true_eq] at hblank
      rcases hblank with rfl | rfl | rfl | rfl <;> cases hw

theorem Word.head_ne {w : List Char} {v : Json} (h : Word w v) : w.head? ≠ some 'd' := by
  have hint (n : ℤ) (r : List Char) : (n.repr.toList++r).head? ≠ some 'd' := by
    obtain ⟨c,u,hn⟩ := List.exists_cons_of_ne_nil (repr_ne_nil n)
    rw [hn]
    rintro hc
    cases hc
    cases repr_chars n 'd' (hn ▸ List.mem_cons_self)
  cases h with
  | null | true | false | minusZero => simp
  | int n => simpa using hint n []
  | special h =>
    simp only [List.mem_cons,List.not_mem_nil,or_false] at h
    rcases h with rfl | rfl | rfl <;> decide
  | @float t sign frac exp n hsign _ _ _ ht =>
    rw [ht,List.append_assoc,List.append_assoc]
    rcases hsign with rfl | rfl
    · exact hint n (frac++exp)
    · simp

theorem Lexes.head_ne (h : Lexes t ks) : t.head? ≠ some 'd' := by
  cases h with
  | nil => simp
  | blank hc _ | punct hc _ =>
    rintro hd
    cases hd
    cases hc
  | str _ _ => simp
  | @word w _ _ _ hword hw _ _ =>
    cases w with
    | nil => cases hw
    | cons c w => exact hword.head_ne

theorem Lexes.lead (h : Lexes t (.punct c::ks)) :
    ∃ w u, t = w++c::u ∧ ∀ d ∈ w, isBlank d = true := by
  generalize hk : Token.punct c::ks = k at h
  induction h with
  | nil | str _ _ _ | word _ _ _ _ _ => cases hk
  | blank hc _ ih =>
    obtain ⟨w,u,rfl,hw⟩ := ih hk
    exact ⟨_::w,u,rfl,List.forall_mem_cons.mpr ⟨hc,hw⟩⟩
  | punct _ _ _ =>
    cases hk
    exact ⟨[],_,rfl,by simp⟩

theorem Lexes.blanks {w : List Char} (hw : ∀ d ∈ w, isBlank d = true)
    (h : Lexes t ks) : Lexes (w++t) ks := by
  induction w with
  | nil => exact h
  | cons d w ih =>
    rw [List.forall_mem_cons] at hw
    exact .blank hw.1 (ih hw.2)

theorem Lexes.blank_of_nil (h : Lexes t []) : ∀ d ∈ t, isBlank d = true := by
  generalize hk : ([] : List Token) = k at h
  induction h with
  | nil => simp
  | blank hc _ ih => exact List.forall_mem_cons.mpr ⟨hc,ih hk⟩
  | punct _ _ _ | str _ _ _ | word _ _ _ _ _ => cases hk

/-- No part from the front closes more brackets than it opens, and all are closed. -/
def Nested (ks : List Token) : Prop := total ks = 0 ∧ ∀ p, p <+: ks → 0 ≤ total p

theorem total_append (k k' : List Token) : total (k++k') = total k+total k' := by
  simp [total]

theorem Nested.append {k : List Token} (h : Nested k) (h' : Nested k') : Nested (k++k') := by
  refine ⟨by rw [total_append,h.1,h'.1]; rfl,fun p hp => ?_⟩
  obtain ⟨t,ht⟩ := hp
  rcases List.append_eq_append_iff.mp ht with ⟨q,rfl,-⟩ | ⟨q,rfl,rfl⟩
  · exact h.2 p (List.prefix_append p q)
  · rw [total_append,h.1,zero_add]
    exact h'.2 q (List.prefix_append q t)

variable {k : Token}

theorem nested_one (h : k.weight = 0) : Nested [k] := by
  refine ⟨by simp [total,h],fun p hp => ?_⟩
  rcases List.prefix_cons_iff.mp hp with rfl | ⟨q,rfl,hq⟩
  · rfl
  · rw [List.prefix_nil.mp hq]
    simp [total,h]

/-- Inside of a pair of brackets one more is open. -/
theorem total_pos {k' : Token} {p : List Token} (hk : k.weight = 1) (hks : Nested ks)
    (hp : p <+: k::(ks++[k'])) (hne : p ≠ []) (hall : p ≠ k::(ks++[k'])) : 1 ≤ total p := by
  obtain ⟨q,rfl,hq⟩ := (List.prefix_cons_iff.mp hp).resolve_left hne
  have hle : 0 ≤ total q := by
    rcases List.prefix_concat_iff.mp hq with rfl | hq
    · exact absurd rfl hall
    · exact hks.2 q hq
  have htotal : total (k::q) = 1+total q := by simp [total,hk]
  omega

theorem Nested.wrap {k' : Token} (hk : k.weight = 1) (hk' : k'.weight = -1) (hks : Nested ks) :
    Nested (k::(ks++[k'])) := by
  have hzero : total (k::(ks++[k'])) = 0 := by
    have hsum := hks.1
    simp only [total] at hsum
    simp [total,hk,hk',hsum]
  refine ⟨hzero,fun p hp => ?_⟩
  by_cases hne : p = []
  · rw [hne]; rfl
  · by_cases hall : p = k::(ks++[k'])
    · rw [hall,hzero]
    · exact (total_pos hk hks hp hne hall).trans' (by decide)

theorem nested_nil : Nested [] := ⟨rfl,fun p hp => by rw [List.prefix_nil.mp hp]; rfl⟩

mutual

theorem nested_tokens : ∀ j : Json, Nested (tokens j)
  | .null | .bool _ | .int _ | .float _ => nested_one rfl
  | .str _ => nested_one rfl
  | .arr xs => (nested_elements xs).wrap rfl rfl
  | .obj rows => (nested_members rows).wrap rfl rfl

theorem nested_elements : ∀ xs : List Json, Nested (elementTokens xs)
  | [] => nested_nil
  | x::xs => (nested_tokens x).append (nested_moreElements xs)

theorem nested_moreElements : ∀ xs : List Json, Nested (moreElementTokens xs)
  | [] => nested_nil
  | x::xs => (nested_one rfl).append ((nested_tokens x).append (nested_moreElements xs))

theorem nested_members : ∀ rows : List (String × Json), Nested (memberTokens rows)
  | [] => nested_nil
  | row::rows => (nested_row row).append (nested_moreMembers rows)

theorem nested_moreMembers : ∀ rows : List (String × Json), Nested (moreMemberTokens rows)
  | [] => nested_nil
  | row::rows => (nested_one rfl).append ((nested_row row).append (nested_moreMembers rows))

theorem nested_row : ∀ row : String × Json, Nested (rowTokens row)
  | (_,value) => (nested_one rfl).append ((nested_one rfl).append (nested_tokens value))

end

/-- The text of an object that has begun and not ended has an open bracket. -/
theorem total_front {rows : List (String × Json)} {k k' : List Token}
    (h : tokens (.obj rows) = k++k') (hk : k ≠ []) (hk' : k' ≠ []) : 1 ≤ total k := by
  rw [tokens] at h
  exact total_pos rfl (nested_members rows) (h ▸ List.prefix_append k k') hk
    fun heq => hk' (List.append_right_eq_self.mp (h.symm.trans heq.symm))

mutual

/-- The numbers with a fraction are kept as texts of such numbers. -/
def Spelled : Json → Prop
  | .float t => Word t.toList (.float t) ∧ isWord t.toList = true
  | .arr xs => SpelledAll xs
  | .obj rows => SpelledRows rows
  | _ => True

def SpelledAll : List Json → Prop
  | [] => True
  | x::xs => Spelled x ∧ SpelledAll xs

def SpelledRows : List (String × Json) → Prop
  | [] => True
  | row::rows => SpelledRow row ∧ SpelledRows rows

def SpelledRow : String × Json → Prop
  | (_,value) => Spelled value

end

structure Written (t : List Char) (ks : List Token) : Prop where
  lexes : Lexes t ks
  printed : ∀ c ∈ t, inRange 0x20 0x7e c = true

theorem digit_facts {n : ℕ} (h : n < 16) :
    isHex (Nat.digitChar n) = true ∧ (Nat.digitChar n).toLower = Nat.digitChar n := by
  interval_cases n <;> decide

theorem hex4_facts (n : ℕ) : ∃ a b c d, hex4 n = [a,b,c,d] ∧ [a,b,c,d].all isHex = true ∧
    (n < 0x10000 → hexCode a b c d = n) := by
  have hdigit (m : ℕ) := digit_facts (Nat.mod_lt m (by decide : 0 < 16))
  refine ⟨_,_,_,_,rfl,by simp [hdigit],fun hn => ?_⟩
  rw [hexCode,(hdigit _).2,(hdigit _).2,(hdigit _).2,(hdigit _).2,value4_hex4 hn]

theorem unicode_printed (h : t.all isHex = true) :
    ∀ c ∈ '\\':: 'u'::t, inRange 0x20 0x7e c = true :=
  List.forall_mem_cons.mpr ⟨rfl,List.forall_mem_cons.mpr
    ⟨rfl,fun c hc => hex_printed (List.all_eq_true.mp h c hc)⟩⟩

theorem body_cons (hb : Body b cs) :
    Body (escape c++b) (c::cs) ∧ ∀ d ∈ escape c, inRange 0x20 0x7e d = true := by
  have hrange := toNat_range c
  unfold escape
  split
  · next q hq =>
      have hfound := List.find?_some hq
      have hc : q.1 = c := of_decide_eq_true hfound
      have hmem := List.mem_of_find?_eq_some hq
      rw [← hc]
      refine ⟨.escape (.short (List.mem_cons_of_mem _ hmem)) hb,?_⟩
      simp only [shortEscapes,List.mem_cons,List.not_mem_nil,or_false] at hmem
      rcases hmem with rfl | rfl | rfl | rfl | rfl | rfl | rfl <;> exact List.all_eq_true.mp (by decide)
  · next hnone =>
      have hne : c ≠ '"' ∧ c ≠ '\\' := by
        constructor <;> (rintro rfl; cases hnone)
      split_ifs with hprint hbasic
      · exact ⟨.raw ⟨hprint.1,hne⟩ hb,by simpa [inRange] using hprint⟩
      · obtain ⟨x,y,z,w,hxs,hhex,hcode⟩ := hex4_facts c.toNat
        rw [unicodeEscape,hxs]
        exact ⟨.escape (.unicode hhex (hcode hbasic)) hb,unicode_printed hhex⟩
      · obtain ⟨x,y,z,w,hxs,hhex,hcode⟩ := hex4_facts (0xd800+(c.toNat-0x10000)/0x400)
        obtain ⟨x',y',z',w',hxs',hhex',hcode'⟩ := hex4_facts (0xdc00+(c.toNat-0x10000)%0x400)
        rw [unicodeEscape,unicodeEscape,hxs,hxs']
        refine ⟨.escape (.pair ?_ ?_ ?_ ?_) hb,
          List.forall_mem_append.mpr ⟨unicode_printed hhex,unicode_printed hhex'⟩⟩
        · rw [show [x,y,z,w,x',y',z',w'] = [x,y,z,w]++[x',y',z',w'] from rfl,List.all_append,hhex,
            hhex',Bool.and_self]
        all_goals omega

theorem body_escaped : Body (escaped cs) cs ∧ ∀ d ∈ escaped cs, inRange 0x20 0x7e d = true := by
  induction cs with
  | nil => exact ⟨.nil,by simp [escaped]⟩
  | cons c cs ih =>
    obtain ⟨hbody,hc⟩ := body_cons ih.1
    exact ⟨hbody,List.forall_mem_append.mpr ⟨hc,ih.2⟩⟩

theorem isWord_repr {n : ℤ} : isWord n.repr.toList = true := by
  rw [isWord,Bool.and_eq_true,List.all_eq_true]
  refine ⟨by simpa using repr_ne_nil n,fun c hc => ?_⟩
  have h := repr_chars n c hc
  simp only [isIntChar,Char.isDigit,Bool.or_eq_true,Bool.and_eq_true,decide_eq_true_eq] at h
  rcases h with h | rfl
  · have hrange : 48 ≤ c.toNat ∧ c.toNat ≤ 57 := h
    simp [isWordChar,inRange,hrange]
  · rfl

namespace Written
variable {r : List Char}

theorem punct (h : isPunct c = true) (hr : Written r ks) : Written (c::r) (.punct c::ks) :=
  ⟨.punct h hr.lexes,List.forall_mem_cons.mpr ⟨(punct_printed h).1,hr.printed⟩⟩

theorem word {w : List Char} {v : Json} (h : Word w v) (hw : isWord w = true) (he : WordEnds r)
    (hr : Written r ks) : Written (w++r) (.scalar v::ks) := by
  refine ⟨.word h hw he hr.lexes,List.forall_mem_append.mpr ⟨fun c hc => ?_,hr.printed⟩⟩
  rw [isWord,Bool.and_eq_true,List.all_eq_true] at hw
  exact word_printed (hw.2 c hc)

theorem quote (s : String) (hr : Written r ks) :
    Written (JsonText.quote s++r) (.str s.toList::ks) := by
  obtain ⟨hbody,hprinted⟩ := body_escaped
  have hquote : JsonText.quote s++r = '"'::(escaped s.toList++ '"'::r) := by
    simp [JsonText.quote]
  rw [hquote]
  exact ⟨.str hbody hr.lexes,List.forall_mem_cons.mpr ⟨rfl,List.forall_mem_append.mpr
    ⟨hprinted,List.forall_mem_cons.mpr ⟨rfl,hr.printed⟩⟩⟩⟩

end Written

section
variable {r : List Char}

theorem wordEnds_cons (h : isWordChar c = false) : WordEnds (c::t) := by
  rintro d hd
  cases hd
  exact h

theorem wordEnds_moreElements {xs : List Json} (h : WordEnds r) :
    WordEnds (moreElements xs++r) := by
  cases xs with
  | nil => exact h
  | cons x xs => exact wordEnds_cons rfl

theorem wordEnds_moreMembers {rows : List (String × Json)} (h : WordEnds r) :
    WordEnds (moreMembers rows++r) := by
  cases rows with
  | nil => exact h
  | cons row rows => exact wordEnds_cons rfl

end

mutual

theorem written_text : ∀ {j : Json} {r : List Char} {ks : List Token}, Spelled j → WordEnds r →
    Written r ks → Written (text j++r) (tokens j++ks)
  | .null,_,_,_,he,hr => hr.word .null rfl he
  | .bool true,_,_,_,he,hr => hr.word .true rfl he
  | .bool false,_,_,_,he,hr => hr.word .false rfl he
  | .int n,_,_,_,he,hr => hr.word (.int n) (isWord_repr) he
  | .float _,_,_,h,he,hr => hr.word h.1 h.2 he
  | .str s,_,_,_,_,hr => hr.quote s
  | .arr xs,r,ks,h,_,hr => by
    have hxs : Written (elements xs++ ']'::r) (elementTokens xs++ .punct ']'::ks) :=
      written_elements h (wordEnds_cons rfl) (hr.punct rfl)
    simpa [text,tokens] using hxs.punct (c := '[') rfl
  | .obj rows,r,ks,h,_,hr => by
    have hrows : Written (members rows++ '\x7d'::r) (memberTokens rows++ .punct '\x7d'::ks) :=
      written_members h (wordEnds_cons rfl) (hr.punct rfl)
    simpa [text,tokens] using hrows.punct (c := '\x7b') rfl

theorem written_elements : ∀ {xs : List Json} {r : List Char} {ks : List Token}, SpelledAll xs →
    WordEnds r → Written r ks → Written (elements xs++r) (elementTokens xs++ks)
  | [],_,_,_,_,hr => hr
  | x::xs,r,ks,h,he,hr => by
    simpa [elements,elementTokens] using
      written_text h.1 (wordEnds_moreElements he) (written_moreElements h.2 he hr)

theorem written_moreElements : ∀ {xs : List Json} {r : List Char} {ks : List Token},
    SpelledAll xs → WordEnds r → Written r ks → Written (moreElements xs++r) (moreElementTokens xs++ks)
  | [],_,_,_,_,hr => hr
  | x::xs,r,ks,h,he,hr => by
    have hx := written_text h.1 (wordEnds_moreElements he) (written_moreElements h.2 he hr)
    simpa [moreElements,moreElementTokens] using hx.punct (c := ',') rfl

theorem written_members : ∀ {rows : List (String × Json)} {r : List Char} {ks : List Token},
    SpelledRows rows → WordEnds r → Written r ks → Written (members rows++r) (memberTokens rows++ks)
  | [],_,_,_,_,hr => hr
  | row::rows,r,ks,h,he,hr => by
    simpa [members,memberTokens] using
      written_member h.1 (wordEnds_moreMembers he) (written_moreMembers h.2 he hr)

theorem written_moreMembers : ∀ {rows : List (String × Json)} {r : List Char} {ks : List Token},
    SpelledRows rows → WordEnds r → Written r ks →
      Written (moreMembers rows++r) (moreMemberTokens rows++ks)
  | [],_,_,_,_,hr => hr
  | row::rows,r,ks,h,he,hr => by
    have hrow := written_member h.1 (wordEnds_moreMembers he) (written_moreMembers h.2 he hr)
    simpa [moreMembers,moreMemberTokens] using hrow.punct (c := ',') rfl

theorem written_member : ∀ {row : String × Json} {r : List Char} {ks : List Token},
    SpelledRow row → WordEnds r → Written r ks → Written (member row++r) (rowTokens row++ks)
  | (key,value),r,ks,h,he,hr => by
    have hvalue := written_text (j := value) h he hr
    simpa [member,rowTokens] using (hvalue.punct (c := ':') rfl).quote key

end

end CodexLb.JsonGrammar
