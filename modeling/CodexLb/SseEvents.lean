import CodexLb.SseDecoding
import CodexLb.SseFraming

/-!
# Events that are sent one after the other

`format_sse_event` writes the type of a payload into a line of its own, as it is.
The payload itself is written as ASCII without blanks. What is sent is framed by
`_iter_sse_events` and parsed by `parse_sse_data_json`; the events stay separate as
long as no type ends an event or holds a data line that is not blank.
-/
namespace CodexLb.SseEvents
open PythonText JsonGrammar SseFraming SseDecoding
open Json (Object)

def typeLine (payload : Object) : List Char :=
  match payload.text? "type" with
  | some t => if t = "" then [] else ['e','v','e','n','t',':',' ']++(t.toList++['\n'])
  | none => []

def dataLine (payload : Object) : List Char :=
  ['d','a','t','a',':',' ']++JsonText.text payload.toJson

def formatSseEvent (payload : Object) : List Char :=
  typeLine payload++(dataLine payload++['\n','\n'])

def encode (t : List Char) : List UInt8 := t.flatMap String.utf8EncodeChar

/-- `decode("utf-8", errors="replace")`. -/
def decode (replaced : List UInt8 → List Char) (bytes : List UInt8) : List Char :=
  (bytes.toByteArray.utf8Decode?.map Array.toList).getD (replaced bytes)

/-- The line with the type ends no event and holds no data. -/
def Quiet (payload : Object) : Prop :=
  popSseEvent '\r' '\n' (typeLine payload) = none ∧
    ∀ v ∈ extractSseDataLines (typeLine payload), ∀ c ∈ v, isBlank c = true

section
variable {α : Type*} [DecidableEq α] {cr lf : α} {u r : List α}

theorem popSseEvent_plain (hu : ∀ b ∈ u, b ≠ cr ∧ b ≠ lf) (t : List α) :
    popSseEvent cr lf (u++t) = (popSseEvent cr lf t).map fun p => (u++p.1,p.2) := by
  induction u with
  | nil => simp
  | cons b u ih =>
    rw [List.forall_mem_cons] at hu
    rw [List.cons_append,popSseEvent_cons,if_neg (by simp [hu.1.1.symm]),
      if_neg (by simp [hu.1.2.symm]),ih hu.2,Option.map_map]
    rfl

omit [DecidableEq α] in
/-- A letter that is in no pattern completes none. -/
theorem not_prefix_append {p xs ys : List α} (h : ¬p <+: xs) (hy : ∀ y ∈ ys.head?, y ∉ p) :
    ¬p <+: xs++ys := by
  intro happ
  obtain ⟨hlt,q,rfl⟩ := isPrefix_of_append h happ
  rw [List.prefix_append_right_inj] at happ
  cases q with
  | nil => simp at hlt
  | cons y q =>
    obtain ⟨s,rfl⟩ := happ
    exact hy y rfl (by simp)

/-- What has no separator yet is ended by the next one. -/
theorem popSseEvent_closed (hne : cr ≠ lf) (hr : popSseEvent cr lf r = none)
    (hu : ∀ b ∈ u, b ≠ cr ∧ b ≠ lf) (hnil : u ≠ []) :
    popSseEvent cr lf (r++(u++[lf,lf])) = some (r++(u++[lf,lf]),[]) := by
  induction r with
  | nil =>
    have hend : popSseEvent cr lf [lf,lf] = some ([lf,lf],[]) := by
      rw [popSseEvent_cons,if_neg (by simp [hne]),if_pos (by simp)]
      rfl
    rw [List.nil_append,popSseEvent_plain hu,hend]
    rfl
  | cons b r ih =>
    rw [popSseEvent_cons] at hr
    split_ifs at hr with hcr hlf
    have hhead : ∀ y ∈ (u++[lf,lf]).head?, y ≠ cr ∧ y ≠ lf := by
      cases u with
      | nil => exact absurd rfl hnil
      | cons y u =>
        rintro y' hy'
        cases hy'
        exact hu y List.mem_cons_self
    rw [List.cons_append,popSseEvent_cons,← List.cons_append,
      if_neg (not_prefix_append hcr fun y hy => by simp [hhead y hy]),
      if_neg (not_prefix_append hlf fun y hy => by simp [hhead y hy]),
      ih (Option.map_eq_none_iff.mp hr)]
    rfl

end

variable {c : Char}

theorem mem_utf8EncodeChar {b : UInt8} (h : b ∈ String.utf8EncodeChar c) (hb : b.toNat < 128) :
    b.toNat = c.toNat := by
  have hc : c.val.toNat = c.toNat := rfl
  unfold String.utf8EncodeChar at h
  dsimp only at h
  split_ifs at h <;> simp only [List.mem_cons,List.not_mem_nil,or_false] at h
  · rw [h,UInt8.toNat_ofNat',Nat.mod_eq_of_lt (by omega),hc]
  all_goals
    rcases h with rfl | rfl | rfl | rfl <;> rw [UInt8.toNat_ofNat'] at hb <;> omega

theorem plain_bytes (h : c ∉ ['\r','\n']) : ∀ b ∈ String.utf8EncodeChar c, b ≠ 13 ∧ b ≠ 10 := by
  simp only [List.mem_cons,List.not_mem_nil,or_false,not_or] at h
  intro b hb
  constructor
  · rintro rfl
    exact h.1 (Char.toNat_inj.mp (mem_utf8EncodeChar hb (by decide)).symm)
  · rintro rfl
    exact h.2 (Char.toNat_inj.mp (mem_utf8EncodeChar hb (by decide)).symm)

theorem encode_prefix {p : List Char} (hp : ∀ c ∈ p, c ∈ ['\r','\n']) (t : List Char) :
    encode p <+: encode t ↔ p <+: t := by
  induction p generalizing t with
  | nil => simp [encode]
  | cons c p ih =>
    rw [List.forall_mem_cons] at hp
    cases t with
    | nil => simp [encode,String.utf8EncodeChar_ne_nil]
    | cons d t =>
      rw [encode,encode,List.flatMap_cons,List.flatMap_cons]
      by_cases hd : d = c
      · rw [hd,List.prefix_append_right_inj,List.prefix_cons_inj]
        exact ih hp.2 t
      · refine iff_of_false (fun hpre => ?_) fun hpre => hd (List.cons_prefix_cons.mp hpre).1.symm
        obtain ⟨b,hb,hcode,hlt⟩ : ∃ b, String.utf8EncodeChar c = [b] ∧ b.toNat = c.toNat ∧
            b.toNat < 128 := by
          simp only [List.mem_cons,List.not_mem_nil,or_false] at hp
          rcases hp.1 with rfl | rfl
          · exact ⟨13,rfl,rfl,by decide⟩
          · exact ⟨10,rfl,rfl,by decide⟩
        obtain ⟨y,ys,hy⟩ := List.exists_cons_of_ne_nil (String.utf8EncodeChar_ne_nil (c := d))
        rw [hb,hy] at hpre
        have hbd : b ∈ String.utf8EncodeChar d := by
          rw [hy,(List.cons_prefix_cons.mp hpre).1]
          exact List.mem_cons_self
        exact hd (Char.toNat_inj.mp ((mem_utf8EncodeChar hbd hlt).symm.trans hcode))

variable {t : List Char}

theorem popSseEvent_encode : popSseEvent 13 10 (encode t) =
    (popSseEvent '\r' '\n' t).map fun p => (encode p.1,encode p.2) := by
  induction t with
  | nil => rfl
  | cons c t ih =>
    by_cases hc : c ∈ ['\r','\n']
    · have hcr : [13,10,13,10] <+: encode (c::t) ↔ ['\r','\n','\r','\n'] <+: c::t :=
        encode_prefix (p := ['\r','\n','\r','\n']) (by simp) (c::t)
      have hlf : [10,10] <+: encode (c::t) ↔ ['\n','\n'] <+: c::t :=
        encode_prefix (p := ['\n','\n']) (by simp) (c::t)
      obtain ⟨b,hb⟩ : ∃ b, ∀ u, encode (c::u) = b::encode u := by
        simp only [List.mem_cons,List.not_mem_nil,or_false] at hc
        rcases hc with rfl | rfl
        · exact ⟨13,fun _ => rfl⟩
        · exact ⟨10,fun _ => rfl⟩
      rw [hb] at hcr hlf ⊢
      rw [popSseEvent_cons,popSseEvent_cons]
      by_cases h4 : ['\r','\n','\r','\n'] <+: c::t
      · rw [if_pos h4,if_pos (hcr.mpr h4),← hb]
        obtain ⟨r,hr⟩ := h4
        rw [← hr]
        rfl
      · rw [if_neg h4,if_neg (mt hcr.mp h4)]
        by_cases h2 : ['\n','\n'] <+: c::t
        · rw [if_pos h2,if_pos (hlf.mpr h2),← hb]
          obtain ⟨r,hr⟩ := h2
          rw [← hr]
          rfl
        · rw [if_neg h2,if_neg (mt hlf.mp h2),ih,Option.map_map,Option.map_map]
          simp only [Function.comp_def,hb]
    · have hplain := popSseEvent_plain (plain_bytes hc) (encode t)
      have hone : ∀ b ∈ [c], b ≠ '\r' ∧ b ≠ '\n' := by simpa using hc
      have hchar := popSseEvent_plain hone t
      rw [List.singleton_append] at hchar
      rw [encode,List.flatMap_cons,← encode,hplain,ih,hchar,Option.map_map,Option.map_map]
      simp [Function.comp_def,encode]

theorem split_encode : split 13 10 (encode t) =
    ((split '\r' '\n' t).1.map encode,encode (split '\r' '\n' t).2) := by
  induction t using pop_induction '\r' '\n' with
  | hnone b h => rw [split_of_none h,split_of_none (by rw [popSseEvent_encode,h]; rfl)]; rfl
  | hsome b e r h ih =>
    rw [split_of_some h,split_of_some (by rw [popSseEvent_encode,h]; rfl),ih]
    rfl

variable {replaced : List UInt8 → List Char}

theorem decode_encode : decode replaced (encode t) = t := by
  have h : (encode t).toByteArray.utf8Decode? = some t.toArray := List.utf8Decode?_utf8Encode
  rw [decode,h]
  simp

def shown (e : List Char) : Bool := (encode e).any fun b => !isAsciiSpace b

theorem shown_of_mem {e : List Char} (hc : c = 'e' ∨ c = 'd') (h : c ∈ e) : shown e = true := by
  refine List.any_eq_true.mpr ?_
  rcases hc with rfl | rfl
  · exact ⟨101,List.mem_flatMap.mpr ⟨_,h,List.mem_cons_self⟩,rfl⟩
  · exact ⟨100,List.mem_flatMap.mpr ⟨_,h,List.mem_cons_self⟩,rfl⟩

theorem walk_fits {max : ℤ} {es : List (List UInt8)} (h : (es.flatten.length : ℤ) ≤ max) :
    walk isAsciiSpace max es [] = (es.map (item isAsciiSpace),.finished) := by
  induction es with
  | nil => rfl
  | cons e es ih =>
    rw [List.flatten_cons,List.length_append] at h
    rw [walk,if_neg (by omega),ih (by omega)]
    rfl

theorem yielded_walk {es : List (List Char)} :
    yielded (decode replaced) ((es.map encode).map (item isAsciiSpace)) = es.filter shown := by
  rw [yielded,List.map_map,List.filter_map,List.map_map]
  exact (List.map_congr_left fun e _ => decode_encode).trans (List.map_id _)

/-- As many events as payloads leave one to each. -/
theorem forall₂_flatMap {A B : Type*} {R : B → A → Prop} {f : A → List B} {os : List A}
    (hf : ∀ o ∈ os, f o ≠ []) :
    List.Forall₂ R (os.flatMap f) os ↔ ∀ o ∈ os, ∃ y, f o = [y] ∧ R y o := by
  have hlength : ∀ {os : List A}, (∀ o ∈ os, f o ≠ []) → os.length ≤ (os.flatMap f).length := by
    intro os hf
    induction os with
    | nil => rfl
    | cons o os ih =>
      rw [List.forall_mem_cons] at hf
      have hle := ih hf.2
      have hpos := List.length_pos_iff.mpr hf.1
      rw [List.flatMap_cons,List.length_append,List.length_cons]
      omega
  induction os with
  | nil => simp
  | cons o os ih =>
    rw [List.forall_mem_cons] at hf
    rw [List.flatMap_cons,List.forall_mem_cons]
    constructor
    · intro h
      obtain ⟨y,ys,hy⟩ := List.exists_cons_of_ne_nil hf.1
      rw [hy,List.cons_append] at h
      obtain ⟨hR,hrest⟩ := List.forall₂_cons.mp h
      have hys : ys = [] := by
        have hcount := hrest.length_eq
        have hle := hlength hf.2
        rw [List.length_append] at hcount
        exact List.length_eq_zero_iff.mp (by omega)
      rw [hys,List.nil_append] at hrest
      exact ⟨⟨y,hy.trans (by rw [hys]),hR⟩,(ih hf.2).mp hrest⟩
    · rintro ⟨⟨y,hy,hR⟩,hrest⟩
      rw [hy]
      exact .cons hR ((ih hf.2).mpr hrest)

section
variable {o : Object}

theorem typeLine_eq : typeLine o = [] ∨
    ∃ t, typeLine o = ['e','v','e','n','t',':',' ']++(t++['\n']) := by
  unfold typeLine
  split
  · split_ifs
    · exact .inl rfl
    · exact .inr ⟨_,rfl⟩
  · exact .inl rfl

theorem dataLine_printed (h : Spelled o.toJson) : ∀ c ∈ dataLine o, inRange 0x20 0x7e c = true := by
  have hw := (written_text (r := []) h (fun _ hc => nomatch hc) ⟨.nil,by simp⟩).printed
  rw [List.append_nil] at hw
  exact List.forall_mem_append.mpr ⟨List.all_eq_true.mp (by decide),hw⟩

def eventsOf (o : Object) : List (List Char) :=
  (split '\r' '\n' (typeLine o)).1++
    [(split '\r' '\n' (typeLine o)).2++(dataLine o++['\n','\n'])]

theorem split_formatted (h : Spelled o.toJson) {rest : List Char} :
    split '\r' '\n' (formatSseEvent o++rest) =
      (eventsOf o++(split '\r' '\n' rest).1,(split '\r' '\n' rest).2) := by
  have hplain : ∀ c ∈ dataLine o, c ≠ '\r' ∧ c ≠ '\n' := fun c hc => by
    have hc := dataLine_printed h c hc
    constructor <;> (rintro rfl; cases hc)
  have hpop := popSseEvent_append (by decide : '\r' ≠ '\n')
    (popSseEvent_closed (by decide) (split_rest (typeLine o)) hplain (by simp [dataLine])) rest
  rw [formatSseEvent,List.append_assoc,split_append (by decide),← List.append_assoc,
    split_of_some hpop]
  simp [eventsOf]

theorem split_all {os : List Object} (h : ∀ o ∈ os, Spelled o.toJson) :
    split '\r' '\n' (os.flatMap formatSseEvent) = (os.flatMap eventsOf,[]) := by
  induction os with
  | nil => exact split_of_none rfl
  | cons o os ih =>
    rw [List.forall_mem_cons] at h
    rw [List.flatMap_cons,split_formatted h.1,ih h.2]
    rfl

theorem extract_formatted (h : Spelled o.toJson) : extractSseDataLines (formatSseEvent o) =
    extractSseDataLines (typeLine o)++[JsonText.text o.toJson] := by
  have hdata : extractSseDataLines (dataLine o++['\n','\n']) = [JsonText.text o.toJson] := by
    have hplain : ∀ c ∈ dataLine o, isLineBreak c = false := fun c hc => by
      have hc := dataLine_printed h c hc
      simp only [inRange,Bool.and_eq_true,decide_eq_true_eq] at hc
      simp [isLineBreak]
      omega
    refine (filterMap_splitlines_cut rfl hplain rfl ['\n']).trans ?_
    rfl
  rcases typeLine_eq with ht | ⟨t,ht⟩
  · rw [formatSseEvent,ht,List.nil_append,hdata]
    rfl
  · have happ (r : List Char) : extractSseDataLines (typeLine o++r) =
        extractSseDataLines (['e','v','e','n','t',':',' ']++t)++extractSseDataLines r := by
      rw [ht,List.append_assoc,List.append_assoc,← List.append_assoc]
      exact filterMap_splitlines_append rfl rfl (['e','v','e','n','t',':',' ']++t) r
    have hline := happ []
    rw [List.append_nil] at hline
    rw [formatSseEvent,happ,hline,hdata]
    exact congrArg (·++_) (List.append_nil _).symm

end

section
variable {vs : List (List Char)} {t : List Char} {ks : List Token}

theorem joinLines_cons {v : List Char} : joinLines (v::(vs++[t])) = v++ '\n'::joinLines (vs++[t]) := by
  cases vs <;> rfl

theorem lexes_blank_lines (hvs : ∀ v ∈ vs, ∀ c ∈ v, isBlank c = true) (h : Lexes t ks) :
    Lexes (joinLines (vs++[t])) ks := by
  induction vs with
  | nil => exact h
  | cons v vs ih =>
    rw [List.forall_mem_cons] at hvs
    have hv : Lexes v [] := by simpa using Lexes.blanks hvs.1 .nil
    rw [List.cons_append,joinLines_cons]
    exact hv.join (ih hvs.2)

theorem lexes_lines (h : Lexes (joinLines (vs++[t])) ks) : ∃ k k', ks = k++k' ∧ Lexes t k' ∧
    (k = [] → ∀ v ∈ vs, ∀ c ∈ v, isBlank c = true) := by
  induction vs generalizing ks with
  | nil => exact ⟨[],ks,rfl,h,by simp⟩
  | cons v vs ih =>
    rw [List.cons_append,joinLines_cons] at h
    obtain ⟨k,k',rfl,hv,hrest⟩ := Lexes.split (by decide : '\n'.toNat < 0x20) h
    obtain ⟨m,m',rfl,ht,hblank⟩ := ih hrest
    refine ⟨k++m,m',(List.append_assoc ..).symm,ht,fun hnil => ?_⟩
    obtain ⟨rfl,rfl⟩ := List.append_eq_nil_iff.mp hnil
    exact List.forall_mem_cons.mpr ⟨hv.blank_of_nil,hblank rfl⟩

/-- An object is read behind other lines only if they are blank: they would have to
close what they open. -/
theorem readsAs_behind {o : Object} (hself : collapse o.toJson = o.toJson) (h : Spelled o.toJson) :
    ReadsAs (joinLines (vs++[JsonText.text o.toJson])) o.toJson ↔
      ∀ v ∈ vs, ∀ c ∈ v, isBlank c = true := by
  have hwritten := (written_text (r := []) h (fun _ hc => nomatch hc) ⟨.nil,by simp⟩).lexes
  rw [List.append_nil,List.append_nil] at hwritten
  constructor
  · rintro ⟨j,hlex,hj⟩
    obtain ⟨rows,rfl⟩ := collapse_obj hj
    obtain ⟨k,k',hks,htext,hblank⟩ := lexes_lines hlex
    have hclosed : total k' = 0 := by
      have hscan := (hwritten.scan (d := 0)).symm.trans htext.scan
      have hdepth := (nested_tokens o.toJson).1
      simp only [Option.some.injEq,Prod.mk.injEq,true_and] at hscan
      omega
    have hall := (nested_tokens (.obj rows)).1
    rw [hks,total_append] at hall
    refine hblank (by_contra fun hne => ?_)
    have hk' : k' ≠ [] := by
      rintro rfl
      exact absurd (htext.blank_of_nil '\x7b' List.mem_cons_self) (by decide)
    have hpos := total_front hks hne hk'
    omega
  · exact fun hblank => ⟨_,lexes_blank_lines hblank hwritten,hself⟩

end

theorem single_iff {o : Object} (hself : collapse o.toJson = o.toJson) (h : Spelled o.toJson) :
    (∃ y, (eventsOf o).filter shown = [y] ∧ ParsesTo y o) ↔ Quiet o := by
  have hlast (r : List Char) : shown (r++(dataLine o++['\n','\n'])) = true :=
    shown_of_mem (.inr rfl) (List.mem_append_right r List.mem_cons_self)
  have hfilter : (eventsOf o).filter shown = (split '\r' '\n' (typeLine o)).1.filter shown++
      [(split '\r' '\n' (typeLine o)).2++(dataLine o++['\n','\n'])] := by
    rw [eventsOf,List.filter_append,List.filter_singleton,hlast]
    rfl
  rw [hfilter,Quiet]
  cases hpop : popSseEvent '\r' '\n' (typeLine o) with
  | none =>
    rw [split_of_none hpop]
    change (∃ y, [formatSseEvent o] = [y] ∧ ParsesTo y o) ↔ _
    rw [← readsAs_behind hself h,← extract_formatted h,← parsesTo_iff]
    simp
  | some q =>
    obtain ⟨hcut,hne⟩ := popSseEvent_spec hpop
    have hfirst : shown q.1 = true := by
      rcases typeLine_eq with ht | ⟨t,ht⟩
      · rw [ht] at hpop
        cases hpop
      · obtain ⟨c,e,he⟩ := List.exists_cons_of_ne_nil hne
        rw [ht,he] at hcut
        refine shown_of_mem (.inl (List.cons.inj hcut).1) ?_
        rw [he]
        exact List.mem_cons_self
    rw [split_of_some hpop,List.filter_cons_of_pos hfirst]
    simp

/-- Events that were emitted one after the other are framed and parsed as the
payloads they were made of exactly when the type of each is quiet. -/
theorem emitted_events_separate_iff (replaced : List UInt8 → List Char) (os : List Object)
    (chunks : List (List UInt8)) (max : ℤ)
    (hos : ∀ o ∈ os, collapse o.toJson = o.toJson ∧ Spelled o.toJson)
    (hchunks : chunks.flatten = encode (os.flatMap formatSseEvent))
    (hmax : chunks.flatten.length ≤ max) :
    List.Forall₂ ParsesTo (yielded (decode replaced) (sseItems max chunks).1) os ↔
      ∀ o ∈ os, Quiet o := by
  have hsplit : split 13 10 chunks.flatten = ((os.flatMap eventsOf).map encode,[]) := by
    rw [hchunks,split_encode,split_all fun o ho => (hos o ho).2]
    rfl
  have hflat := split_flatten 13 10 chunks.flatten
  rw [hsplit,List.append_nil] at hflat
  have hitems : sseItems max chunks = _ := iterSseEvents_eq (by decide) rfl chunks
  rw [List.nil_append,hsplit,walk_fits (hflat ▸ hmax)] at hitems
  have hyielded : yielded (decode replaced) (sseItems max chunks).1 =
      os.flatMap fun o => (eventsOf o).filter shown := by
    rw [hitems,yielded_walk,List.filter_flatMap]
  rw [hyielded,forall₂_flatMap]
  · exact forall₂_congr fun o ho => single_iff (hos o ho).1 (hos o ho).2
  · intro o ho hnil
    have hmem : (split '\r' '\n' (typeLine o)).2++(dataLine o++['\n','\n']) ∈
        (eventsOf o).filter shown := List.mem_filter.mpr
      ⟨by simp [eventsOf],shown_of_mem (.inr rfl) (List.mem_append_right _ List.mem_cons_self)⟩
    rw [hnil] at hmem
    cases hmem

theorem two_events_separate : List.Forall₂ ParsesTo (yielded (decode fun _ => [])
      (sseItems 100 [encode ([⟨[("type",.str "a")]⟩,⟨[]⟩].flatMap formatSseEvent)]).1)
      [⟨[("type",.str "a")]⟩,⟨[]⟩] := by
  refine (emitted_events_separate_iff (fun _ => []) [⟨[("type",.str "a")]⟩,⟨[]⟩] [_] 100 ?_
    (List.append_nil _) (by decide +kernel)).mpr ?_
  · simp [Object.toJson,collapse,collapseRows,collapseRow,Spelled,SpelledRows,SpelledRow]
    exact ⟨rfl,rfl⟩
  · simp [Quiet]
    decide +kernel

/-- A type that ends with a line feed ends its event there. -/
theorem type_ends_event : ¬List.Forall₂ ParsesTo (yielded (decode fun _ => [])
      (sseItems 100 [encode (formatSseEvent ⟨[("type",.str "a\n")]⟩)]).1)
      [⟨[("type",.str "a\n")]⟩] :=
  fun h => absurd h.length_eq (by decide +kernel)

end CodexLb.SseEvents
