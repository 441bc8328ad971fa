import CodexLb.JsonGrammar
import CodexLb.PythonText

/-!
# The payload of an event

`parse_sse_data_json` joins the values of the data lines of an event and reads
them as JSON. The lines are those of `str.splitlines`, which breaks at characters
that break no line of an event stream and that may stand in a JSON text as they
are. What follows such a character is not a data line any more.
-/
namespace CodexLb.SseDecoding
open PythonText JsonGrammar

/-- `_parse_sse_field`. -/
def parseSseField (line : List Char) : List Char × List Char :=
  if ':' ∈ line then
    let value := (line.dropWhile (· ≠ ':')).tail
    (line.takeWhile (· ≠ ':'),if value.head? = some ' ' then value.tail else value)
  else (line,[])

def dataValue (line : List Char) : Option (List Char) :=
  if line = [] ∨ line.head? = some ':' then none
  else if (parseSseField line).1 = ['d','a','t','a'] then some (parseSseField line).2
  else none

/-- `_extract_sse_data_lines`, with no lines for none. -/
def extractSseDataLines (block : List Char) : List (List Char) :=
  (splitlines block).filterMap dataValue

def joinLines : List (List Char) → List Char
  | [] => []
  | [l] => l
  | l::ls => l++ '\n'::joinLines ls

def extractSseData (block : List Char) : Option (List Char) :=
  let lines := extractSseDataLines block
  let data := joinLines lines
  if lines = [] ∨ strip data = [] ∨ strip data = ['[','D','O','N','E',']'] then none else some data

/-- `parse_sse_data_json` returns the object. -/
def ParsesTo (block : List Char) (o : Json.Object) : Prop :=
  ∃ data, extractSseData block = some data ∧ ReadsAs data o.toJson

theorem Lexes.of_joinLines {ls : List (List Char)} {ks : List Token} (h : Lexes (joinLines ls) ks) :
    ∀ l ∈ ls, ∃ k, Lexes l k := by
  induction ls generalizing ks with
  | nil => simp
  | cons l ls ih =>
    cases ls with
    | nil =>
      intro l' hl'
      rw [List.mem_singleton.mp hl']
      exact ⟨ks,h⟩
    | cons l' ls =>
      obtain ⟨k,k',-,hl,hrest⟩ := Lexes.split (by decide : '\n'.toNat < 0x20) h
      exact List.forall_mem_cons.mpr ⟨⟨k,hl⟩,ih hrest⟩

variable {u : List Char}

theorem strip_lead {w : List Char} {c : Char} (hw : ∀ d ∈ w, isBlank d = true)
    (hc : isSpace c = false) : (strip (w++c::u)).head? = some c := by
  have hspace : ∀ d ∈ w, isSpace d = true := by
    intro d hd
    have hblank := hw d hd
    simp only [isBlank,List.mem_cons,List.not_mem_nil,or_false,decide_eq_true_eq] at hblank
    rcases hblank with rfl | rfl | rfl | rfl <;> rfl
  rw [strip,stripWhere,List.dropWhile_append_of_pos hspace,List.dropWhile_cons_of_neg (by simp [hc])]
  obtain ⟨v,hv⟩ := List.rdropWhile_prefix isSpace (l := c::u)
  cases hr : List.rdropWhile isSpace (c::u) with
  | nil =>
    have hall := List.rdropWhile_eq_nil_iff.mp hr c List.mem_cons_self
    rw [hc] at hall
    cases hall
  | cons d r =>
    rw [hr] at hv
    exact congrArg some (List.cons.inj hv).1

variable {o : Json.Object}

theorem collapse_obj {j : Json} (h : collapse j = o.toJson) : ∃ rows, j = .obj rows := by
  cases j with
  | obj rows => exact ⟨rows,rfl⟩
  | _ => simp [collapse,Json.Object.toJson] at h

/-- The tests on the joined lines do not concern an object. -/
theorem parsesTo_iff {block : List Char} : ParsesTo block o ↔
    ReadsAs (joinLines (extractSseDataLines block)) o.toJson := by
  constructor
  · rintro ⟨data,hdata,hreads⟩
    unfold extractSseData at hdata
    simp only at hdata
    split_ifs at hdata
    cases hdata
    exact hreads
  · rintro ⟨j,hlex,hj⟩
    refine ⟨_,if_neg ?_,j,hlex,hj⟩
    obtain ⟨rows,rfl⟩ := collapse_obj hj
    obtain ⟨w,u,hdata,hw⟩ := Lexes.lead hlex
    have hhead := strip_lead (u := u) hw (by decide : isSpace '\x7b' = false)
    rw [hdata]
    rintro (hnil | hnil | hdone)
    · rw [hnil] at hdata
      simp [joinLines] at hdata
    · simp [hnil] at hhead
    · simp [hdone] at hhead

/-- A line of a block: a part of the payload, with or without a space before it,
or any other line. -/
inductive Entry where
  | data (space : Bool) (part : List Char)
  | other (line : List Char)

namespace Entry

def text : Entry → List Char
  | .data space part => ['d','a','t','a',':']++((if space then [' '] else [])++part)
  | .other line => line

def part? : Entry → Option (List Char)
  | .data _ part => some part
  | .other _ => none

/-- Another line is empty, a comment, or one of the other fields. Where it is
broken no data follows. -/
def Proper : Entry → Prop
  | .data _ _ => True
  | .other line =>
    (line = [] ∨ ∃ field rest, line = field++ ':'::rest ∧
      field ∈ [[],['e','v','e','n','t'],['i','d'],['r','e','t','r','y']]) ∧
    ∀ u x t, line = u++x::t → isLineBreak x = true → ¬['d','a','t','a'] <+: t

end Entry

def lineBreak (crlf : Bool) : List Char := if crlf then ['\r','\n'] else ['\n']

def linesText : List (List Char × Bool) → List Char → List Char
  | [],last => last
  | (l,b)::ls,last => l++(lineBreak b++linesText ls last)

def blockText (es : List (Entry × Bool)) (e : Entry) : List Char :=
  linesText (es.map fun q => (q.1.text,q.2)) e.text

def entries (es : List (Entry × Bool)) (e : Entry) : List Entry := es.map Prod.fst++[e]

/-- A character that breaks a line for `splitlines` alone. -/
def isStrayBreak (c : Char) : Bool := c.toNat ∈ [0x85,0x2028,0x2029]

/-- Only blanks follow a carriage return that is no part of a line break. -/
def Trails (l : List Char) : Prop := ∀ c ∈ l.dropWhile (· ≠ '\r'), isBlank c = true

theorem dataValue_data (space : Bool) (part : List Char) :
    ∃ v, dataValue (Entry.data space part).text = some v ∧ (v = part ∨ part = ' '::v) := by
  have hfield : ∀ r, dataValue (['d','a','t','a',':']++r) =
      some (if r.head? = some ' ' then r.tail else r) := fun r => by
    simp [dataValue,parseSseField]
  rw [Entry.text,hfield]
  cases space with
  | true => exact ⟨part,rfl,.inl rfl⟩
  | false =>
    cases part with
    | nil => exact ⟨[],rfl,.inl rfl⟩
    | cons c part =>
      by_cases hc : c = ' '
      · exact ⟨part,by simp [hc],.inr (by rw [hc])⟩
      · exact ⟨c::part,by simp [hc],.inl rfl⟩

theorem data_of_dataValue {line v : List Char} (h : dataValue line = some v) :
    ['d','a','t','a'] <+: line := by
  unfold dataValue parseSseField at h
  split_ifs at h with _ hcolon hdata hdata
  · exact hdata ▸ List.takeWhile_prefix _
  · exact hdata ▸ List.prefix_rfl

/-- Data stands at the front of a text or behind a break in it. -/
theorem data_of_mem_extract {s v : List Char} (hv : v ∈ extractSseDataLines s) :
    ['d','a','t','a'] <+: s ∨
      ∃ u x t, s = u++x::t ∧ isLineBreak x = true ∧ ['d','a','t','a'] <+: t := by
  induction hn : s.length using Nat.strong_induction_on generalizing s with
  | _ n ih =>
    by_cases h : ∃ c ∈ s, isLineBreak c = true
    · obtain ⟨u,x,t,rfl,hu,hx⟩ := exists_cut h
      rw [extractSseDataLines,filterMap_splitlines_cut rfl hu hx,List.mem_append,
        Option.mem_toList] at hv
      rcases hv with hv | hv
      · exact .inl ((data_of_dataValue hv).trans (List.prefix_append u _))
      · have hlt : t.length < n := by
          rw [← hn,List.length_append,List.length_cons]
          omega
        rcases ih _ hlt hv rfl with hdata | ⟨u',x',t',rfl,hx',hdata⟩
        · exact .inr ⟨u,x,t,rfl,hx,hdata⟩
        · exact .inr ⟨u++x::u',x',t',by simp,hx',hdata⟩
    · rw [extractSseDataLines,filterMap_splitlines_line rfl (by simpa using h),
        Option.mem_toList] at hv
      exact .inl (data_of_dataValue hv)

theorem extract_other {line : List Char} (h : (Entry.other line).Proper) :
    extractSseDataLines line = [] := by
  rw [List.eq_nil_iff_forall_not_mem]
  intro v hv
  obtain ⟨hline,hbroken⟩ := h
  rcases data_of_mem_extract hv with hdata | ⟨u,x,t,heq,hx,hdata⟩
  · rcases hline with rfl | ⟨field,rest,rfl,hfield⟩
    · simp at hdata
    · simp only [List.mem_cons,List.not_mem_nil,or_false] at hfield
      rcases hfield with rfl | rfl | rfl | rfl <;> simp at hdata
  · exact hbroken u x t heq hx hdata

/-- The entries of a block are read one after the other. -/
theorem extract_block {es : List (Entry × Bool)} {e : Entry} :
    extractSseDataLines (blockText es e) =
      (entries es e).flatMap fun x => extractSseDataLines x.text := by
  have hbreak (b : Bool) (s t : List Char) : extractSseDataLines (s++(lineBreak b++t)) =
      extractSseDataLines s++extractSseDataLines t := by
    cases b with
    | false => exact filterMap_splitlines_append rfl rfl s t
    | true =>
      refine (filterMap_splitlines_append rfl rfl s ('\n'::t)).trans ?_
      exact congrArg _ (filterMap_splitlines_append (f := dataValue) rfl rfl [] t)
  induction es with
  | nil => exact (List.flatMap_singleton ..).symm
  | cons q es ih => exact (hbreak q.2 _ _).trans (congrArg _ ih)

section
variable {ks : List Token}

/-- Each line is cut into tokens by itself. -/
theorem Lexes.of_linesText {l t : List Char} {b : Bool} (h : Lexes (l++(lineBreak b++t)) ks) :
    ∃ k k', ks = k++k' ∧ Lexes l k ∧ Lexes t k' := by
  cases b with
  | false => exact Lexes.split (by decide) h
  | true =>
    obtain ⟨k,k',rfl,hl,ht⟩ := Lexes.split (by decide : '\r'.toNat < 0x20) h
    obtain ⟨m,m',rfl,hm,ht⟩ := Lexes.split (l := []) (by decide : '\n'.toNat < 0x20) ht
    rw [hm.eq_nil (by simp)]
    exact ⟨k,m',rfl,hl,ht⟩

variable {part : List Char} {c : Char}

theorem stray_or_return (hl : Lexes part ks) (hpart : '\n' ∉ part) (hc : c ∈ part)
    (hbreak : isLineBreak c = true) : isStrayBreak c = true ∨ c = '\r' := by
  simp only [isLineBreak,Bool.or_eq_true,Bool.and_eq_true,decide_eq_true_eq] at hbreak
  by_cases hlt : c.toNat < 0x20
  · have hblank := hl.control c hc hlt
    simp only [isBlank,List.mem_cons,List.not_mem_nil,or_false,decide_eq_true_eq] at hblank
    rcases hblank with rfl | rfl | rfl | rfl
    · simp at hbreak
    · simp at hbreak
    · exact absurd hc hpart
    · exact .inr rfl
  · rcases hbreak with (hbreak | hbreak) | hbreak
    · omega
    · omega
    · exact .inl (decide_eq_true hbreak)

variable {space : Bool}

theorem text_plain (h : ∀ c ∈ part, isLineBreak c = false) :
    ∀ c ∈ (Entry.data space part).text, isLineBreak c = false := by
  refine List.forall_mem_append.mpr ⟨by simp [isLineBreak],List.forall_mem_append.mpr ⟨?_,h⟩⟩
  cases space <;> simp [isLineBreak]

theorem dropWhile_return {a b : List Char} (ha : ∀ c ∈ a, isLineBreak c = false) :
    (a++ '\r'::b).dropWhile (· ≠ '\r') = '\r'::b := by
  rw [List.dropWhile_append_of_pos fun c hc => ?_]
  · simp
  · rw [decide_eq_true_eq]
    rintro rfl
    cases ha _ hc

/-- What a value that was read from a line has of the line's tokens: all of them,
unless something follows a carriage return. -/
def Reads (v part : List Char) : Prop := ∀ ks, Lexes part ks →
  ∃ k k', ks = k++k' ∧ Lexes v k ∧ (k' = [] ↔ Trails part)

theorem extract_data (hl : Lexes part ks) (hpart : '\n' ∉ part)
    (hclean : ∀ c ∈ part, isStrayBreak c = false) :
    ∃ v, extractSseDataLines (Entry.data space part).text = [v] ∧ Reads v part := by
  have hreturn : ∀ c ∈ part, isLineBreak c = true → c = '\r' := fun c hc hbreak =>
    (stray_or_return hl hpart hc hbreak).resolve_left (by simp [hclean c hc])
  have hspace {v a : List Char} {k : List Token} (hv : v = a ∨ a = ' '::v) (ha : Lexes a k) :
      Lexes v k := by
    rcases hv with rfl | rfl
    · exact ha
    · exact ha.of_space
  by_cases h : ∃ c ∈ part, isLineBreak c = true
  · obtain ⟨a,x,b,rfl,ha,hx⟩ := exists_cut h
    obtain rfl := hreturn x (by simp) hx
    obtain ⟨v,hv,hav⟩ := dataValue_data space a
    refine ⟨v,?_,fun ks hks => ?_⟩
    · have hb : extractSseDataLines b = [] := by
        rw [List.eq_nil_iff_forall_not_mem]
        intro w hw
        obtain ⟨_,_,_,_,hlb⟩ := Lexes.split (by decide : '\r'.toNat < 0x20) hl
        rcases data_of_mem_extract hw with ⟨r,rfl⟩ | ⟨u,y,t,rfl,hy,r,rfl⟩
        · exact hlb.head_ne rfl
        · obtain rfl := hreturn y (by simp) hy
          obtain ⟨_,_,_,_,hlt⟩ := Lexes.split (by decide : '\r'.toNat < 0x20) hlb
          exact hlt.head_ne rfl
      have htext : (Entry.data space (a++ '\r'::b)).text = (Entry.data space a).text++ '\r'::b := by
        simp [Entry.text]
      rw [htext,extractSseDataLines,filterMap_splitlines_cut rfl (text_plain ha) rfl,hv]
      exact congrArg _ hb
    · obtain ⟨k,k',rfl,hla,hlb⟩ := Lexes.split (by decide : '\r'.toNat < 0x20) hks
      refine ⟨k,k',rfl,hspace hav hla,?_⟩
      rw [Trails,dropWhile_return ha,List.forall_mem_cons]
      exact ⟨fun hnil => ⟨rfl,(hnil ▸ hlb).blank_of_nil⟩,fun hblank => hlb.eq_nil hblank.2⟩
  · have hplain : ∀ c ∈ part, isLineBreak c = false := by simpa using h
    obtain ⟨v,hv,hav⟩ := dataValue_data space part
    refine ⟨v,?_,fun ks hks => ⟨ks,[],(List.append_nil ks).symm,hspace hav hks,fun _ => ?_,fun _ => rfl⟩⟩
    · rw [extractSseDataLines,filterMap_splitlines_line rfl (text_plain hplain),hv]
      rfl
    · rw [Trails,List.dropWhile_eq_nil_iff.mpr fun c hc => ?_]
      · simp
      · rw [decide_eq_true_eq]
        rintro rfl
        cases hplain _ hc

/-- A part that is cut at such a character ends in the middle of a quoted text. -/
theorem cut_part (hl : Lexes part ks) (hpart : '\n' ∉ part) (htrail : Trails part)
    (hstray : ∃ c ∈ part, isStrayBreak c = true) :
    ∃ v ∈ extractSseDataLines (Entry.data space part).text,
      ∀ d, scan (.plain,0) v ≠ some (.plain,d) := by
  obtain ⟨c,hc,hstray⟩ := hstray
  have hbreak : isLineBreak c = true := by simpa [isLineBreak,isStrayBreak] using Or.inr hstray
  obtain ⟨a,x,t,rfl,ha,hx⟩ := exists_cut ⟨c,hc,hbreak⟩
  have hx' : isStrayBreak x = true := by
    refine (stray_or_return hl hpart (List.mem_append_right a List.mem_cons_self) hx).resolve_right ?_
    rintro rfl
    -- Everything behind the return is blank, and what is before it is no break.
    rw [Trails,dropWhile_return ha] at htrail
    rcases List.mem_append.mp hc with hc | hc
    · rw [ha c hc] at hbreak
      cases hbreak
    · have hblank := htrail c hc
      simp only [isBlank,List.mem_cons,List.not_mem_nil,or_false,decide_eq_true_eq] at hblank
      rcases hblank with rfl | rfl | rfl | rfl <;> cases hstray
  obtain ⟨v,hv,hav⟩ := dataValue_data space a
  have hhigh : 0x80 ≤ x.toNat := by
    simp only [isStrayBreak,List.mem_cons,List.not_mem_nil,or_false,decide_eq_true_eq] at hx'
    omega
  have hscan := hl.scan (d := 0)
  rw [scan_append] at hscan
  obtain ⟨⟨m,n⟩,hm,hrest⟩ := Option.bind_eq_some_iff.mp hscan
  obtain ⟨s,hstep,-⟩ := Option.bind_eq_some_iff.mp hrest
  obtain ⟨m',hnext,-⟩ := Option.map_eq_some_iff.mp hstep
  have hquoted : scan (.plain,0) a = some (.quoted,n) := by
    cases m with
    | quoted => exact hm
    | plain =>
      rw [Mode.next,if_neg (toNat_ne (by simp; omega)),if_neg (by omega)] at hnext
      cases hnext
    | escaped =>
      rw [Mode.next,if_neg (by simp [inRange]; omega)] at hnext
      cases hnext
  refine ⟨v,?_,?_⟩
  · have htext : (Entry.data space (a++x::t)).text = (Entry.data space a).text++x::t := by
      simp [Entry.text]
    rw [htext,extractSseDataLines,filterMap_splitlines_cut rfl (text_plain ha) hx,hv]
    exact List.mem_cons_self
  · rcases hav with rfl | rfl
    · rw [hquoted]
      simp
    · rw [show scan (.plain,0) v = some (.quoted,n) from hquoted]
      simp

variable {es : List (Entry × Bool)} {e : Entry} {ls : List (List Char × Bool)} {last : List Char}

theorem reads_parts {xs : List Entry} (hproper : ∀ x ∈ xs, x.Proper)
    (hparts : ∀ part ∈ xs.filterMap Entry.part?, (∃ k, Lexes part k) ∧ '\n' ∉ part ∧
      ∀ c ∈ part, isStrayBreak c = false) :
    List.Forall₂ Reads (xs.flatMap fun x => extractSseDataLines x.text)
      (xs.filterMap Entry.part?) := by
  induction xs with
  | nil => exact .nil
  | cons x xs ih =>
    obtain ⟨hx,hxs⟩ := List.forall_mem_cons.mp hproper
    cases x with
    | data space part =>
      obtain ⟨⟨⟨k,hk⟩,hpart,hclean⟩,hrest⟩ := List.forall_mem_cons.mp hparts
      obtain ⟨v,hv,hreads⟩ := @extract_data _ _ space hk hpart hclean
      rw [List.flatMap_cons,hv]
      exact .cons hreads (ih hxs hrest)
    | other line =>
      have hline : extractSseDataLines (Entry.other line).text = [] := extract_other hx
      rw [List.flatMap_cons,hline]
      exact ih hxs hparts

theorem lexes_joined {vs : List (List Char)} (h : Lexes (linesText ls last) ks)
    (htrail : ∀ l ∈ ls.map Prod.fst++[last], Trails l)
    (hv : List.Forall₂ Reads vs (ls.map Prod.fst++[last])) : Lexes (joinLines vs) ks := by
  have hall {v part : List Char} {k : List Token} (hr : Reads v part) (ht : Trails part)
      (hk : Lexes part k) : Lexes v k := by
    obtain ⟨m,m',rfl,hm,hnil⟩ := hr k hk
    rwa [hnil.mpr ht,List.append_nil]
  induction ls generalizing vs ks with
  | nil =>
    cases hv with
    | cons hpart hrest =>
      cases hrest
      exact hall hpart (htrail _ List.mem_cons_self) h
  | cons q ls ih =>
    cases hv with
    | @cons v _ vs' _ hpart hrest =>
      obtain ⟨k,k',rfl,hl,ht⟩ := Lexes.of_linesText h
      obtain ⟨hq,hls⟩ := List.forall_mem_cons.mp htrail
      cases vs' with
      | nil => cases ls <;> cases hrest
      | cons v' vs' => exact Lexes.join (hall hpart hq hl) (ih ht hls hrest)

theorem lines_lex (h : Lexes (linesText ls last) ks) :
    ∀ l ∈ ls.map Prod.fst++[last], ∃ k, Lexes l k := by
  induction ls generalizing ks with
  | nil => exact fun l hl => ⟨ks,List.mem_singleton.mp hl ▸ h⟩
  | cons q ls ih =>
    obtain ⟨k,k',-,hl,ht⟩ := Lexes.of_linesText h
    exact List.forall_mem_cons.mpr ⟨⟨k,hl⟩,ih ht⟩

theorem mem_linesText (hc : isStrayBreak c = true) :
    c ∈ linesText ls last ↔ ∃ l ∈ ls.map Prod.fst++[last], c ∈ l := by
  induction ls with
  | nil => simp [linesText]
  | cons q ls ih =>
    have hbreak : c ∉ lineBreak q.2 := by
      rcases q with ⟨l,_ | _⟩ <;> intro hmem
      · rw [List.mem_singleton.mp hmem] at hc
        cases hc
      · rcases List.mem_cons.mp hmem with rfl | hmem
        · cases hc
        · rw [List.mem_singleton.mp hmem] at hc
          cases hc
    simp [linesText,hbreak,ih]

/-- The front of the text of an object is not the text of an object. -/
theorem trails_of_reads {v : List Char} {j : Json} {rows : List (String × Json)}
    (hj : Lexes part (tokens (.obj rows))) (hr : Reads v part) (hv : Lexes v (tokens j))
    (ho : ∃ rows', j = .obj rows') : Trails part := by
  obtain ⟨rows',rfl⟩ := ho
  obtain ⟨k,k',hks,hk,hnil⟩ := hr _ hj
  refine hnil.mp (by_contra fun hne => ?_)
  have htotal : total k = 0 := by
    have hscan := (hk.scan (d := 0)).symm.trans hv.scan
    have hdepth := (nested_tokens (.obj rows')).1
    simp only [Option.some.injEq,Prod.mk.injEq,true_and] at hscan
    omega
  have hk' : k ≠ [] := by
    rintro rfl
    obtain ⟨w,u,rfl,-⟩ := Lexes.lead hv
    cases hk.blank_of_nil '\x7b' (by simp)
  have hpos := total_front hks hk' hne
  omega

end

/-- As long as only blanks follow a carriage return in a line, a payload is
recovered from a block it is sent in exactly when no character that breaks a line
for `splitlines` alone stands in its text. Without such a character a payload that
is sent in one line is recovered exactly when only blanks follow a return. -/
theorem payload_recovered_iff (ls : List (List Char × Bool)) (last : List Char) (o : Json.Object)
    (es : List (Entry × Bool)) (e : Entry) (hs : ReadsAs (linesText ls last) o.toJson)
    (hlines : ∀ l ∈ ls.map Prod.fst++[last], '\n' ∉ l)
    (hdata : (entries es e).filterMap Entry.part? = ls.map Prod.fst++[last])
    (hproper : ∀ x ∈ entries es e, x.Proper) :
    ((∀ l ∈ ls.map Prod.fst++[last], Trails l) →
      (ParsesTo (blockText es e) o ↔ ∀ c ∈ linesText ls last, isStrayBreak c = false)) ∧
    (ls = [] → (∀ c ∈ last, isStrayBreak c = false) →
      (ParsesTo (blockText es e) o ↔ Trails last)) := by
  obtain ⟨j,hlex,hj⟩ := hs
  have hreads (hclean : ∀ c ∈ linesText ls last, isStrayBreak c = false) :
      List.Forall₂ Reads (extractSseDataLines (blockText es e)) (ls.map Prod.fst++[last]) := by
    rw [extract_block,← hdata]
    refine reads_parts hproper fun part hpart => ?_
    rw [hdata] at hpart
    refine ⟨lines_lex hlex part hpart,hlines part hpart,fun c hc => ?_⟩
    by_contra hstray
    rw [Bool.not_eq_false] at hstray
    rw [hclean c ((mem_linesText hstray).mpr ⟨part,hpart,hc⟩)] at hstray
    cases hstray
  have hrecovered (htrail : ∀ l ∈ ls.map Prod.fst++[last], Trails l)
      (hclean : ∀ c ∈ linesText ls last, isStrayBreak c = false) : ParsesTo (blockText es e) o :=
    parsesTo_iff.mpr ⟨j,lexes_joined hlex htrail (hreads hclean),hj⟩
  refine ⟨fun htrail => ⟨fun hparses c hc => ?_,hrecovered htrail⟩,?_⟩
  · by_contra hstray
    rw [Bool.not_eq_false] at hstray
    obtain ⟨l,hl,hcl⟩ := (mem_linesText hstray).mp hc
    obtain ⟨k,hk⟩ := lines_lex hlex l hl
    rw [← hdata] at hl
    obtain ⟨x,hx,hxl⟩ := List.mem_filterMap.mp hl
    cases x with
    | other line => cases hxl
    | data space part =>
      cases hxl
      rw [hdata] at hl
      obtain ⟨v,hv,hscan⟩ := @cut_part _ _ space hk (hlines _ hl) (htrail _ hl) ⟨c,hcl,hstray⟩
      obtain ⟨j',hlex',-⟩ := parsesTo_iff.mp hparses
      obtain ⟨k',hk'⟩ := Lexes.of_joinLines hlex' v
        (extract_block ▸ List.mem_flatMap.mpr ⟨_,hx,hv⟩)
      exact hscan _ hk'.scan
  · rintro rfl hclean
    refine ⟨fun hparses => ?_,fun htrail => hrecovered (by simpa using htrail) hclean⟩
    obtain ⟨j',hlex',hj'⟩ := parsesTo_iff.mp hparses
    obtain ⟨rows,rfl⟩ := collapse_obj hj
    have hone := hreads hclean
    generalize extractSseDataLines (blockText es e) = vs at hone hlex'
    cases hone with
    | cons hr hrest =>
      cases hrest
      exact trails_of_reads hlex hr hlex' (collapse_obj hj')

theorem empty_object_recovered :
    ParsesTo (blockText [(.other ['i','d',':','7'],true),(.data true ['\x7b','\r',' '],false)]
      (.data false ['\x7d'])) ⟨[]⟩ := by
  refine ((payload_recovered_iff [(['\x7b','\r',' '],false)] ['\x7d'] ⟨[]⟩ _ _
    ⟨.obj [],.punct rfl (.blank rfl (.blank rfl (.blank rfl (.punct rfl .nil)))),rfl⟩
    (by decide) rfl ?_).1 ?_).mpr (by simp [linesText,lineBreak,isStrayBreak])
  · intro x hx
    simp only [entries,List.map_cons,List.map_nil,List.cons_append,List.nil_append,List.mem_cons,
      List.not_mem_nil,or_false] at hx
    rcases hx with rfl | rfl | rfl
    · refine ⟨.inr ⟨['i','d'],['7'],rfl,by decide⟩,fun u x t heq hx => ?_⟩
      have hmem : x ∈ ['i','d',':','7'] := heq ▸ List.mem_append_right u List.mem_cons_self
      simp only [List.mem_cons,List.not_mem_nil,or_false] at hmem
      rcases hmem with rfl | rfl | rfl | rfl <;> cases hx
    · trivial
    · trivial
  · simp [Trails,isBlank]

/-- The object with a line separator as the value of `a`, written as it is. -/
def separatorText : List Char := ['\x7b','"','a','"',':','"','\u2028','"','\x7d']

theorem separator_lost : ReadsAs separatorText (.obj [("a",.str "\u2028")]) ∧
      ¬ParsesTo (blockText [] (.data true separatorText)) ⟨[("a",.str "\u2028")]⟩ := by
  constructor
  · have hkey : Body ['a'] ['a'] := .raw (by decide) .nil
    have hvalue : Body ['\u2028'] ['\u2028'] := .raw (by decide) .nil
    exact ⟨.obj [("a",.str "\u2028")],.punct rfl (.str hkey (.punct rfl (.str hvalue
      (.punct rfl .nil)))),rfl⟩
  · rw [parsesTo_iff]
    rintro ⟨j,hlex,-⟩
    cases hlex.scan (d := 0)

end CodexLb.SseDecoding
