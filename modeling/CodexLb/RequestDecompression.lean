import Mathlib.Data.List.TakeWhile
import Mathlib.Tactic.Common

/-!
# Decompressing request bodies

`_decompress_body` undoes the encodings of a body from the last to the first, and
no stage may give more than `max_size` bytes. The decoders are parameters that
carry what is asked of them: they are incremental, and a valid body gives what was
compressed. A buffer only grows, so an error carries the most bytes that were held.

A gzip or zstd stage may give exactly `max_size` bytes. A deflate stage may not:
its loops stop at a full buffer before they look whether anything is left.
-/
namespace CodexLb.RequestDecompression

abbrev Bytes := List UInt8

def chunkSize : ℕ := 65536

inductive Failure where
  | tooLarge (held : ℕ) | incomplete | unsupported

def Refused {α : Type} (n : ℕ) (r : Except Failure α) : Prop :=
  ∃ held ≤ n, r = .error (.tooLarge held)

/-- A reader with `rest` still to come, asked for a chunk at a time. -/
structure Reader where
  State : Type
  read : State → Bytes × State
  rest : State → Bytes
  yields : ∀ s, (read s).1++rest (read s).2 = rest s
  bounded : ∀ s, (read s).1.length ≤ chunkSize
  ends : ∀ s, (read s).1 = [] → rest s = []

section Read
variable (r : Reader) (max : ℕ)

def readLimited (s : r.State) (buffer : Bytes) : Except Failure Bytes :=
  if _h : (r.read s).1 = [] then .ok buffer
  else if max < buffer.length+(r.read s).1.length then
    .error (.tooLarge (buffer.length+(r.read s).1.length))
  else readLimited (r.read s).2 (buffer++(r.read s).1)
termination_by (r.rest s).length
decreasing_by
  have hpos := List.length_pos_iff.mpr _h
  rw [← r.yields s,List.length_append]
  omega

variable {r max} {s : r.State} {buffer out : Bytes}

theorem readLimited_spec (h : buffer++r.rest s = out) (hb : buffer.length ≤ max) :
    (out.length ≤ max ∧ readLimited r max s buffer = .ok out) ∨
      (max < out.length ∧ Refused (max+chunkSize) (readLimited r max s buffer)) := by
  fun_induction readLimited r max s buffer with
  | case1 s buffer hempty =>
    rw [r.ends s hempty,List.append_nil] at h
    exact .inl ⟨h ▸ hb,congrArg _ h⟩
  | case2 s buffer _ hlt =>
    have hread := r.bounded s
    refine .inr ⟨?_,_,by omega,rfl⟩
    rw [← h,← r.yields s,List.length_append,List.length_append]
    omega
  | case3 s buffer _ hlt ih =>
    exact ih (by rw [List.append_assoc,r.yields,h]) (by rw [List.length_append]; omega)
end Read

structure Inflated (S : Type) where
  output : Bytes
  unconsumedTail : Bytes
  state : S

/-- A `decompressobj`. `rest` is what some input still gives, and an input completes
the stream if nothing is missing behind it. A tail is left only by a full output. -/
structure Inflater where
  State : Type
  init : State
  decompress : State → Bytes → ℕ → Inflated State
  eof : State → Bool
  rest : State → Bytes → Bytes
  Completes : State → Bytes → Prop
  yields : ∀ s chunk n more, (decompress s chunk n).output++rest (decompress s chunk n).state
    ((decompress s chunk n).unconsumedTail++more) = rest s (chunk++more)
  completes : ∀ s chunk n more, Completes s (chunk++more) →
    Completes (decompress s chunk n).state ((decompress s chunk n).unconsumedTail++more)
  bounded : ∀ s chunk n, 0 < n → (decompress s chunk n).output.length ≤ n
  full : ∀ s chunk n, (decompress s chunk n).unconsumedTail ≠ [] →
    (decompress s chunk n).output.length = n
  consumed : ∀ s n, (decompress s [] n).unconsumedTail = []
  drained : ∀ s n, 0 < n → (decompress s [] n).output = [] → rest s [] = []
  ends : ∀ s, Completes s [] → rest s [] = [] → eof s = true

section Inflate
variable (z : Inflater) (max : ℕ)

abbrev inflate (s : z.State) (chunk buffer : Bytes) : Inflated z.State :=
  z.decompress s chunk (max-buffer.length)

/-- The loop over one chunk of the input. -/
def feed (s : z.State) (chunk buffer : Bytes) : Except Failure (z.State × Bytes) :=
  if _h : chunk = [] then .ok (s,buffer)
  else if _hfull : max-buffer.length = 0 then .error (.tooLarge buffer.length)
  else feed (inflate z max s chunk buffer).state (inflate z max s chunk buffer).unconsumedTail
    (buffer++(inflate z max s chunk buffer).output)
termination_by (max-buffer.length,chunk.length)
decreasing_by
  have hpos := List.length_pos_iff.mpr _h
  rw [Prod.lex_def,List.length_append]
  by_cases htail : (inflate z max s chunk buffer).unconsumedTail = []
  · rw [htail,List.length_nil]
    omega
  · rw [z.full _ _ _ htail]
    omega

def feedAll (s : z.State) (data buffer : Bytes) : Except Failure (z.State × Bytes) :=
  if _h : data = [] then .ok (s,buffer)
  else (feed z max s (data.take chunkSize) buffer).bind fun q =>
    feedAll q.1 (data.drop chunkSize) q.2
termination_by data.length
decreasing_by
  have hpos := List.length_pos_iff.mpr _h
  rw [List.length_drop,chunkSize]
  omega

/-- The loop after the input. -/
def drain (s : z.State) (buffer : Bytes) : Except Failure (z.State × Bytes) :=
  if _hfull : max-buffer.length = 0 then .error (.tooLarge buffer.length)
  else if _h : (inflate z max s [] buffer).output = [] then .ok ((inflate z max s [] buffer).state,buffer)
  else drain (inflate z max s [] buffer).state (buffer++(inflate z max s [] buffer).output)
termination_by max-buffer.length
decreasing_by
  have hpos := List.length_pos_iff.mpr _h
  rw [List.length_append]
  omega

def decompressDeflate (data : Bytes) : Except Failure Bytes := do
  let fed ← feedAll z max z.init data []
  let q ← drain z max fed.1 fed.2
  if z.eof q.1 then .ok q.2 else .error .incomplete

/-- What is in the buffer and what the input still gives make up the output. -/
structure Inflates (s : z.State) (data buffer out : Bytes) : Prop where
  sum : buffer++z.rest s data = out
  completes : z.Completes s data
  bounded : buffer.length ≤ max

variable {z max} {s : z.State} {chunk data buffer out more : Bytes}

theorem Inflates.next (h : Inflates z max s (chunk++more) buffer out)
    (hfull : max-buffer.length ≠ 0) :
    Inflates z max (inflate z max s chunk buffer).state
      ((inflate z max s chunk buffer).unconsumedTail++more)
      (buffer++(inflate z max s chunk buffer).output) out := by
  refine ⟨?_,z.completes _ _ _ _ h.completes,?_⟩
  · rw [List.append_assoc,z.yields,h.sum]
  · have hle : (inflate z max s chunk buffer).output.length ≤ _ :=
      z.bounded s chunk _ (Nat.pos_of_ne_zero hfull)
    rw [List.length_append]
    omega

theorem Inflates.le_length (h : Inflates z max s data buffer out) (hfull : max-buffer.length = 0) :
    max ≤ out.length := by
  rw [← h.sum,List.length_append]
  omega

theorem feed_spec (h : Inflates z max s (chunk++more) buffer out) :
    (∃ q, feed z max s chunk buffer = .ok q ∧ Inflates z max q.1 more q.2 out) ∨
      (max ≤ out.length ∧ Refused max (feed z max s chunk buffer)) := by
  fun_induction feed z max s chunk buffer with
  | case1 s buffer => exact .inl ⟨_,rfl,h⟩
  | case2 s chunk buffer _ hfull => exact .inr ⟨h.le_length hfull,_,h.bounded,rfl⟩
  | case3 s chunk buffer _ hfull ih => exact ih (h.next hfull)

theorem feedAll_spec (h : Inflates z max s data buffer out) :
    (∃ q, feedAll z max s data buffer = .ok q ∧ Inflates z max q.1 [] q.2 out) ∨
      (max ≤ out.length ∧ Refused max (feedAll z max s data buffer)) := by
  fun_induction feedAll z max s data buffer with
  | case1 s buffer => exact .inl ⟨_,rfl,h⟩
  | case2 s data buffer _ ih =>
    rw [← List.take_append_drop chunkSize data] at h
    rcases feed_spec h with ⟨q,hq,hnext⟩ | ⟨hlong,held,hheld,herror⟩
    · rw [hq]
      exact ih q hnext
    · exact .inr ⟨hlong,held,hheld,by rw [herror]; rfl⟩

theorem drain_spec (h : Inflates z max s [] buffer out) :
    (out.length < max ∧ ∃ q, drain z max s buffer = .ok q ∧ z.eof q.1 = true ∧ q.2 = out) ∨
      (max ≤ out.length ∧ Refused max (drain z max s buffer)) := by
  fun_induction drain z max s buffer with
  | case1 s buffer hfull => exact .inr ⟨h.le_length hfull,_,h.bounded,rfl⟩
  | case2 s buffer hfull hempty =>
    have hnext := Inflates.next (show Inflates z max s ([]++[]) buffer out from h) hfull
    simp only [z.consumed,hempty,List.append_nil] at hnext
    have hout := h.sum
    rw [z.drained s _ (Nat.pos_of_ne_zero hfull) hempty,List.append_nil] at hout
    obtain rfl := hout
    exact .inl ⟨by omega,_,rfl,z.ends _ hnext.completes (List.append_right_eq_self.mp hnext.sum),rfl⟩
  | case3 s buffer hfull _ ih =>
    have hnext := Inflates.next (show Inflates z max s ([]++[]) buffer out from h) hfull
    rw [z.consumed] at hnext
    exact ih hnext

theorem decompressDeflate_spec (max : ℕ) (hout : z.rest z.init data = out)
    (hcompletes : z.Completes z.init data) :
    (out.length < max ∧ decompressDeflate z max data = .ok out) ∨
      (max ≤ out.length ∧ Refused max (decompressDeflate z max data)) := by
  unfold decompressDeflate
  have hstart : Inflates z max z.init data [] out := ⟨hout,hcompletes,Nat.zero_le _⟩
  rcases feedAll_spec hstart with ⟨fed,hfed,hnext⟩ | ⟨hlong,held,hheld,herror⟩
  · rw [hfed]
    rcases drain_spec hnext with ⟨hlt,q,hq,heof,rfl⟩ | ⟨hlong,held,hheld,herror⟩
    · exact .inl ⟨hlt,by simp [bind,Except.bind,hq,heof]⟩
    · exact .inr ⟨hlong,held,hheld,by simp [bind,Except.bind,herror]⟩
  · exact .inr ⟨hlong,held,hheld,by rw [herror]; rfl⟩
end Inflate

inductive Encoding where
  | zstd | gzip | deflate | identity
  deriving DecidableEq

def Encoding.ofString? : String → Option Encoding
  | "zstd" => some .zstd
  | "gzip" => some .gzip
  | "deflate" => some .deflate
  | "identity" => some .identity
  | _ => none

/-- The decoders, and what a valid body decompresses to. The first attempt of zstd
may fail for want of a size. -/
structure Codecs where
  gzip : Reader
  openGzip : Bytes → gzip.State
  zlib : Inflater
  zstd : Reader
  openZstd : Bytes → zstd.State
  zstdDecompress : Bytes → ℕ → Option Bytes
  plain : Encoding → Bytes → Option Bytes
  gzip_plain : ∀ d out, plain .gzip d = some out → gzip.rest (openGzip d) = out
  deflate_plain : ∀ d out, plain .deflate d = some out →
    zlib.rest zlib.init d = out ∧ zlib.Completes zlib.init d
  zstd_plain : ∀ d out, plain .zstd d = some out →
    zstd.rest (openZstd d) = out ∧ ∀ n, ∀ o ∈ zstdDecompress d n, o = out
  identity_plain : ∀ d out, plain .identity d = some out → d = out

section Body
variable (c : Codecs) (max : ℕ) (d : Bytes)

def decompressZstd : Except Failure Bytes :=
  match c.zstdDecompress d max with
  | some out => if max < out.length then .error (.tooLarge out.length) else .ok out
  | none => readLimited c.zstd max (c.openZstd d) []

def Codecs.decompress : Encoding → Except Failure Bytes
  | .zstd => decompressZstd c max d
  | .gzip => readLimited c.gzip max (c.openGzip d) []
  | .deflate => decompressDeflate c.zlib max d
  | .identity => .ok d

/-- The stages from number `n` on. -/
def decompressStages : ℕ → List Encoding → Bytes → Except (ℕ × Failure) Bytes
  | _,[],d => .ok d
  | n,e::es,d =>
    match c.decompress max d e with
    | .ok out => decompressStages (n+1) es out
    | .error f => .error (n,f)

def decompressBody (encodings : List String) : Except (ℕ × Failure) Bytes :=
  match encodings.mapM Encoding.ofString? with
  | none => .error (0,.unsupported)
  | some es => decompressStages c max 0 es.reverse d

/-- The stages of a valid body with their outputs, and the body at the end. -/
inductive Decodes : List Encoding → Bytes → List (Encoding × Bytes) → Bytes → Prop
  | nil (d : Bytes) : Decodes [] d [] d
  | cons {e : Encoding} {es : List Encoding} {d out body : Bytes} {outs : List (Encoding × Bytes)} :
      c.plain e d = some out → Decodes es out outs body → Decodes (e::es) d ((e,out)::outs) body

def small : Encoding × Bytes → Bool
  | (.identity,_) => true
  | (_,out) => out.length ≤ max

/-- The body if every output is small, and the error at the first one that is not. -/
def Exact (body : Bytes) : ℕ → List (Encoding × Bytes) → Except (ℕ × Failure) Bytes → Prop
  | _,[],r => r = .ok body
  | n,q::outs,r =>
    if small max q then Exact body (n+1) outs r
    else ∃ held, r = .error (n,.tooLarge held) ∧ (q.1 ≠ .zstd → held ≤ max+chunkSize)

/-- The outputs that the code lets pass. -/
def fits : Encoding × Bytes → Bool
  | (.deflate,out) => out.length < max
  | q => small max q

variable {c max d} {e : Encoding} {out body : Bytes} {es : List Encoding}
  {outs : List (Encoding × Bytes)} {n : ℕ}

theorem decompress_spec (max : ℕ) (h : c.plain e d = some out) :
    (fits max (e,out) = true ∧ c.decompress max d e = .ok out) ∨ (fits max (e,out) = false ∧
      ∃ held, c.decompress max d e = .error (.tooLarge held) ∧
        (e ≠ .zstd → held ≤ max+chunkSize)) := by
  have hread {r : Reader} {s : r.State} (hr : r.rest s = out) :=
    readLimited_spec (show []++r.rest s = out from hr) (Nat.zero_le max)
  cases e with
  | identity => exact .inl ⟨rfl,congrArg _ (c.identity_plain d out h)⟩
  | gzip =>
    rcases hread (c.gzip_plain d out h) with ⟨hle,hok⟩ | ⟨hlt,held,hheld,herror⟩
    · exact .inl ⟨decide_eq_true hle,hok⟩
    · exact .inr ⟨decide_eq_false hlt.not_ge,held,herror,fun _ => hheld⟩
  | deflate =>
    obtain ⟨hout,hcompletes⟩ := c.deflate_plain d out h
    rcases decompressDeflate_spec max hout hcompletes with
      ⟨hlt,hok⟩ | ⟨hle,held,hheld,herror⟩
    · exact .inl ⟨decide_eq_true hlt,hok⟩
    · exact .inr ⟨decide_eq_false hle.not_gt,held,herror,fun _ => by omega⟩
  | zstd =>
    obtain ⟨hout,hshot⟩ := c.zstd_plain d out h
    simp only [Codecs.decompress,decompressZstd]
    cases hz : c.zstdDecompress d max with
    | some o =>
      obtain rfl := hshot max o hz
      by_cases hlt : max < o.length
      · exact .inr ⟨decide_eq_false hlt.not_ge,_,if_pos hlt,nofun⟩
      · exact .inl ⟨decide_eq_true (not_lt.mp hlt),if_neg hlt⟩
    | none =>
      rcases hread hout with ⟨hle,hok⟩ | ⟨hlt,held,-,herror⟩
      · exact .inl ⟨decide_eq_true hle,hok⟩
      · exact .inr ⟨decide_eq_false hlt.not_ge,held,herror,nofun⟩

theorem small_of_fits {q : Encoding × Bytes} (h : fits max q = true) : small max q = true := by
  obtain ⟨e,out⟩ := q
  cases e with
  | deflate => exact decide_eq_true (of_decide_eq_true h : out.length < max).le
  | _ => exact h

theorem not_exact_of_lt {m : ℕ} {f : Failure} (h : n < m) : ¬Exact max body m outs (.error (n,f)) := by
  induction outs generalizing m with
  | nil => nofun
  | cons q outs ih =>
    rw [Exact]
    split_ifs
    · exact ih (by omega)
    · rintro ⟨held,he,-⟩
      cases he
      omega

theorem stages_exact_iff (h : Decodes c es d outs body) :
    Exact max body n outs (decompressStages c max n es d) ↔
      ∀ q ∈ outs.takeWhile (small max), fits max q = true := by
  induction h generalizing n with
  | nil d => simp [Exact,decompressStages]
  | @cons e es d out body outs hplain _ ih =>
    rw [decompressStages,Exact,List.takeWhile_cons]
    rcases decompress_spec max hplain with ⟨hfits,hok⟩ | ⟨hfull,held,herror,hheld⟩
    · rw [hok,if_pos (small_of_fits hfits),if_pos (small_of_fits hfits),List.forall_mem_cons,ih]
      exact (and_iff_right hfits).symm
    · rw [herror]
      split_ifs
      · refine iff_of_false (not_exact_of_lt (Nat.lt_succ_self n)) fun hall => ?_
        rw [hall (e,out) List.mem_cons_self] at hfull
        cases hfull
      · exact iff_of_true ⟨held,rfl,hheld⟩ nofun

/-- Decompression is exact at its limit unless a deflate stage comes to give exactly
`max_size` bytes. -/
theorem decompression_exact_iff {encodings : List String}
    (hes : encodings.mapM Encoding.ofString? = some es) (h : Decodes c es.reverse d outs body) :
    Exact max body 0 outs (decompressBody c max d encodings) ↔
      ∀ q ∈ outs.takeWhile (small max), fits max q = true := by
  rw [decompressBody,hes]
  exact stages_exact_iff h

theorem stages_whole {result : Bytes} (h : Decodes c es d outs body)
    (hresult : decompressStages c max n es d = .ok result) :
    result = body ∧ ∀ q ∈ outs, small max q = true := by
  induction h generalizing n with
  | nil d => exact ⟨(Except.ok.inj hresult).symm,nofun⟩
  | cons hplain _ ih =>
    rw [decompressStages] at hresult
    rcases decompress_spec max hplain with ⟨hfits,hok⟩ | ⟨-,held,herror,-⟩
    · rw [hok] at hresult
      exact (ih hresult).imp_right fun hall => List.forall_mem_cons.mpr ⟨small_of_fits hfits,hall⟩
    · rw [herror] at hresult
      cases hresult

end Body

/-- A body that is handed out as it is. -/
def copyReader : Reader where
  State := Bytes
  read s := (s.take chunkSize,s.drop chunkSize)
  rest := id
  yields := List.take_append_drop chunkSize
  bounded := List.length_take_le chunkSize
  ends s h := (List.take_eq_nil_iff.mp h).resolve_left (by decide)

/-- The byte 7 as a stored block of a gzip file. -/
def storedGzip : Bytes := [31,139,8,0,0,0,0,0,4,3,1,1,0,254,255,7,46,122,102,76,1,0,0,0]

/-- The byte 7 as a stored block of a zlib stream. -/
def storedZlib : Bytes := [120,1,1,1,0,254,255,7,0,8,0,8]

/-- What a stream with one stored byte still gives when `n` bytes of it were read. -/
def storedByte (n : ℕ) (d : Bytes) : Bytes := if n ≤ 7 then (d.drop (7-n)).take 1 else []

theorem storedByte_append (n : ℕ) (d more : Bytes) :
    storedByte n d++storedByte (n+d.length) more = storedByte n (d++more) := by
  unfold storedByte
  by_cases hn : n ≤ 7
  · by_cases hd : n+d.length ≤ 7
    · have hdrop : d.drop (7-n) = [] := List.drop_eq_nil_iff.mpr (by omega)
      simp [hn,hd,hdrop,List.drop_append,Nat.sub_sub]
    · have hlong : 1 ≤ (d.drop (7-n)).length := by rw [List.length_drop]; omega
      simp [hn,hd,List.drop_append_of_le_length (show 7-n ≤ d.length by omega),
        List.take_append_of_le_length hlong]
  · simp [hn,show ¬n+d.length ≤ 7 by omega]

/-- It counts the bytes of the stream. -/
def storedInflater : Inflater where
  State := ℕ
  init := 0
  decompress s chunk _ := ⟨storedByte s chunk,[],s+chunk.length⟩
  eof s := 12 ≤ s
  rest := storedByte
  Completes s d := 12 ≤ s+d.length
  yields s chunk _ more := storedByte_append s chunk more
  completes s chunk _ more h := by
    rw [List.length_append,← Nat.add_assoc] at h
    exact h
  bounded s chunk n h := by
    have hone := List.length_take_le 1 (chunk.drop (7-s))
    dsimp only [storedByte]
    split_ifs
    · omega
    · exact Nat.zero_le n
  full _ _ _ h := absurd rfl h
  consumed _ _ := rfl
  drained _ _ _ h := h
  ends _ h _ := by simpa using h

/-- Streams with one stored byte. -/
def storedCodecs : Codecs where
  gzip := copyReader
  openGzip d := (d.drop 15).take 1
  zlib := storedInflater
  zstd := copyReader
  openZstd := id
  zstdDecompress _ _ := none
  plain e d := match e with
    | .gzip => if d = storedGzip then some [7] else none
    | .deflate => if d = storedZlib then some [7] else none
    | .zstd => none
    | .identity => some d
  gzip_plain d out h := by
    obtain ⟨rfl,rfl⟩ : d = storedGzip ∧ [7] = out := by simpa using h
    rfl
  deflate_plain d out h := by
    obtain ⟨rfl,rfl⟩ : d = storedZlib ∧ [7] = out := by simpa using h
    exact ⟨rfl,le_rfl⟩
  zstd_plain _ _ h := by cases h
  identity_plain _ _ := Option.some.inj

theorem gzip_exact_at_limit :
    Exact 1 [7] 0 [(.gzip,[7])] (decompressBody storedCodecs 1 storedGzip ["gzip"]) :=
  (decompression_exact_iff (show _ = some [.gzip] from rfl) (.cons rfl (.nil _))).mpr (by decide)

/-- One byte where one byte is allowed. -/
theorem deflate_refused_at_limit : Decodes storedCodecs [.deflate] storedZlib [(.deflate,[7])] [7] ∧
      ¬Exact 1 [7] 0 [(.deflate,[7])] (decompressBody storedCodecs 1 storedZlib ["deflate"]) :=
  have hdecodes : Decodes storedCodecs [.deflate] storedZlib [(.deflate,[7])] [7] :=
    .cons rfl (.nil _)
  ⟨hdecodes,(stages_exact_iff hdecodes).not.mpr (by decide)⟩

end CodexLb.RequestDecompression
