import Mathlib.Data.List.Infix
import Mathlib.Data.List.TakeWhile

/-!
# Cutting an event stream into events

`_iter_sse_events` collects chunks in a buffer and takes an event off its front
as soon as the buffer holds a separator. The letters are bytes in the code; all
that is asked of them here is which are the two line breaks and which are blank.
The size limit is tested on every event and on a buffer without a separator.
-/
namespace CodexLb.SseFraming

variable {α : Type*} [DecidableEq α] (cr lf : α) (blank : α → Bool)

/-- The first place of a pattern that is not empty. -/
def find (pattern : List α) : List α → Option ℕ
  | [] => none
  | b::bs => if pattern <+: b::bs then some 0 else (find pattern bs).map (·+1)

def separators : List (List α) := [[cr,lf,cr,lf],[lf,lf]]

def findSseSeparator (buffer : List α) : Option (ℕ × ℕ) :=
  match find [cr,lf,cr,lf] buffer,find [lf,lf] buffer with
  | none,none => none
  | some i,none => some (i,4)
  | none,some j => some (j,2)
  | some i,some j => if i ≤ j then some (i,4) else some (j,2)

def popSseEvent (buffer : List α) : Option (List α × List α) :=
  (findSseSeparator cr lf buffer).map fun p => (buffer.take (p.1+p.2),buffer.drop (p.1+p.2))

section Pop
variable {cr lf} {b : α} {bs buffer e rest : List α}

theorem popSseEvent_cons : popSseEvent cr lf (b::bs) =
    if [cr,lf,cr,lf] <+: b::bs then some ((b::bs).take 4,(b::bs).drop 4)
    else if [lf,lf] <+: b::bs then some ((b::bs).take 2,(b::bs).drop 2)
    else (popSseEvent cr lf bs).map fun p => (b::p.1,p.2) := by
  unfold popSseEvent findSseSeparator
  simp only [find]
  split_ifs with hcr hlf hlf
  · rfl
  · cases find [lf,lf] bs <;> rfl
  · cases find [cr,lf,cr,lf] bs <;> rfl
  · cases find [cr,lf,cr,lf] bs with
    | none =>
      cases find [lf,lf] bs with
      | none => rfl
      | some j => simp
    | some i =>
      cases find [lf,lf] bs with
      | none => simp
      | some j =>
        simp only [Option.map_some,Nat.add_le_add_iff_right]
        split_ifs <;> simp

theorem popSseEvent_spec (h : popSseEvent cr lf buffer = some (e,rest)) :
    e++rest = buffer ∧ e ≠ [] := by
  induction buffer generalizing e with
  | nil => cases h
  | cons b bs ih =>
    rw [popSseEvent_cons] at h
    split_ifs at h
    · cases h
      exact ⟨List.take_append_drop 4 (b::bs),by simp⟩
    · cases h
      exact ⟨List.take_append_drop 2 (b::bs),by simp⟩
    · obtain ⟨⟨f,r⟩,hp,heq⟩ := Option.map_eq_some_iff.mp h
      cases heq
      exact ⟨by rw [List.cons_append,(ih hp).1],by simp⟩

/-- The buffer is cut behind the first separator that is complete. -/
theorem popSseEvent_cut (hne : cr ≠ lf) (h : popSseEvent cr lf buffer = some (e,rest)) :
    (∃ s ∈ separators cr lf, s <:+ e) ∧ ∀ s ∈ separators cr lf, ¬s <:+: e.dropLast := by
  induction buffer generalizing e with
  | nil => cases h
  | cons b bs ih =>
    rw [popSseEvent_cons] at h
    split_ifs at h with hcr hlf
    · obtain ⟨tail,htail⟩ := hcr
      cases h
      rw [← htail]
      refine ⟨⟨_,List.mem_cons_self,List.suffix_rfl⟩,?_⟩
      simp [separators,List.infix_cons_iff,hne.symm]
    · obtain ⟨tail,htail⟩ := hlf
      cases h
      rw [← htail]
      refine ⟨⟨[lf,lf],by simp [separators],List.suffix_rfl⟩,?_⟩
      simp [separators,List.infix_cons_iff]
    · obtain ⟨⟨f,r⟩,hp,heq⟩ := Option.map_eq_some_iff.mp h
      cases heq
      obtain ⟨hcut,hnone⟩ := popSseEvent_spec hp
      obtain ⟨⟨s,hs,hsuffix⟩,hinside⟩ := ih hp
      refine ⟨⟨s,hs,hsuffix.trans (List.suffix_cons b f)⟩,fun t ht hin => ?_⟩
      rw [List.dropLast_cons_of_ne_nil hnone,List.infix_cons_iff] at hin
      rcases hin with hpre | hin
      · -- A separator at the front would have been found before the rest was looked at.
        have hlong := hpre.trans ((List.prefix_cons_inj b).mpr
          ((List.dropLast_prefix f).trans ⟨r,hcut⟩))
        simp only [separators,List.mem_cons,List.not_mem_nil,or_false] at ht
        rcases ht with rfl | rfl
        · exact hcr hlong
        · exact hlf hlong
      · exact hinside t ht hin

theorem popSseEvent_none (h : popSseEvent cr lf buffer = none) :
    ∀ s ∈ separators cr lf, ¬s <:+: buffer := by
  induction buffer with
  | nil => simp [separators]
  | cons b bs ih =>
    rw [popSseEvent_cons] at h
    split_ifs at h with hcr hlf
    intro s hs hin
    rcases List.infix_cons_iff.mp hin with hpre | hin
    · simp only [separators,List.mem_cons,List.not_mem_nil,or_false] at hs
      rcases hs with rfl | rfl
      · exact hcr hpre
      · exact hlf hpre
    · exact ih (Option.map_eq_none_iff.mp h) s hs hin

theorem popSseEvent_length_lt (h : popSseEvent cr lf buffer = some (e,rest)) :
    rest.length < buffer.length := by
  obtain ⟨rfl,hne⟩ := popSseEvent_spec h
  rw [List.length_append]
  have := List.length_pos_iff.mpr hne
  omega

omit [DecidableEq α] in
/-- A pattern that only more input completes. -/
theorem isPrefix_of_append {p xs ys : List α} (h : ¬p <+: xs) (happ : p <+: xs++ys) :
    xs.length < p.length ∧ xs <+: p := by
  have hlt : xs.length < p.length := by
    by_contra hle
    exact h (List.prefix_of_prefix_length_le happ (List.prefix_append xs ys) (not_lt.mp hle))
  exact ⟨hlt,List.prefix_of_prefix_length_le (List.prefix_append xs ys) happ hlt.le⟩

theorem popSseEvent_append (hne : cr ≠ lf) (h : popSseEvent cr lf buffer = some (e,rest))
    (more : List α) : popSseEvent cr lf (buffer++more) = some (e,rest++more) := by
  induction buffer generalizing e with
  | nil => cases h
  | cons b bs ih =>
    rw [popSseEvent_cons] at h
    rw [List.cons_append,popSseEvent_cons,← List.cons_append]
    split_ifs at h with hcr hlf
    · cases h
      obtain ⟨tail,htail⟩ := hcr
      rw [if_pos ⟨tail++more,by rw [← List.append_assoc,htail]⟩,← htail]
      rfl
    · cases h
      obtain ⟨tail,htail⟩ := hlf
      cases htail
      rw [if_neg (by simp [hne]),if_pos (by simp)]
      rfl
    · obtain ⟨⟨f,r⟩,hp,heq⟩ := Option.map_eq_some_iff.mp h
      cases heq
      have hlf' : ¬[lf,lf] <+: b::bs++more := by
        intro happ
        match bs,(isPrefix_of_append hlf happ).1,hp with
        | [],_,hp => cases hp
      have hcr' : ¬[cr,lf,cr,lf] <+: b::bs++more := by
        intro happ
        obtain ⟨hlt,tail,htail⟩ := isPrefix_of_append hcr happ
        match bs,hlt,htail,hp with
        | [],_,_,hp => cases hp
        | [c],_,_,hp => simp [popSseEvent,findSseSeparator,find] at hp
        | [c,d],_,htail,hp =>
          cases htail
          simp [popSseEvent,findSseSeparator,find,hne.symm] at hp
      rw [if_neg hcr',if_neg hlf',ih hp]
      rfl

theorem length_lt_of_popSseEvent_append {more : List α} (hnone : popSseEvent cr lf buffer = none)
    (h : popSseEvent cr lf (buffer++more) = some (e,rest)) : buffer.length < e.length := by
  induction buffer generalizing e with
  | nil => exact List.length_pos_iff.mpr (popSseEvent_spec h).2
  | cons b bs ih =>
    rw [popSseEvent_cons] at hnone
    rw [List.cons_append,popSseEvent_cons,← List.cons_append] at h
    split_ifs at hnone h with hcr hlf hcr' hlf'
    · cases h
      exact (isPrefix_of_append hcr hcr').1.trans_eq (List.length_take_of_le hcr'.length_le).symm
    · cases h
      exact (isPrefix_of_append hlf hlf').1.trans_eq (List.length_take_of_le hlf'.length_le).symm
    · obtain ⟨⟨f,r⟩,hp,heq⟩ := Option.map_eq_some_iff.mp h
      cases heq
      have := ih (Option.map_eq_none_iff.mp hnone) hp
      simpa using this

end Pop

/-- An event that was taken off the buffer, and whether it is yielded. -/
structure Item (α : Type*) where
  raw : List α
  shown : Bool

inductive Ending where
  | finished | tooLarge
  deriving DecidableEq

/-- A blank event is dropped. -/
def item (e : List α) : Item α := ⟨e,e.any fun b => !blank b⟩

/-- The inner loop: the events of the buffer, and the buffer unless it or an
event is too large. -/
def drain (max : ℤ) (buffer : List α) : List (Item α) × Option (List α) :=
  match _h : popSseEvent cr lf buffer with
  | none => ([],if max < buffer.length then none else some buffer)
  | some (e,rest) =>
    if max < e.length then ([],none)
    else
      let r := drain max rest
      (item blank e::r.1,r.2)
termination_by buffer.length
decreasing_by exact popSseEvent_length_lt ‹_›

/-- What is left when the input ends is an event, blank or not. -/
def flush (max : ℤ) (buffer : List α) : List (Item α) × Ending :=
  if buffer = [] then ([],.finished)
  else if max < buffer.length then ([],.tooLarge)
  else ([⟨buffer,true⟩],.finished)

/-- `_iter_sse_events` from a buffer on. -/
def iterSseEvents (max : ℤ) : List α → List (List α) → List (Item α) × Ending
  | buffer,[] => flush max buffer
  | buffer,chunk::chunks =>
    if chunk = [] then iterSseEvents max buffer chunks
    else
      match drain cr lf blank max (buffer++chunk) with
      | (items,none) => (items,.tooLarge)
      | (items,some rest) =>
        let r := iterSseEvents max rest chunks
        (items++r.1,r.2)

/-- The events of an input with their separators, and what follows the last one. -/
def split (input : List α) : List (List α) × List α :=
  match _h : popSseEvent cr lf input with
  | none => ([],input)
  | some (e,rest) =>
    let r := split rest
    (e::r.1,r.2)
termination_by input.length
decreasing_by exact popSseEvent_length_lt ‹_›

/-- An input and its events. Each ends with the first separator in it, and no
separator is left behind the last one. -/
structure Cuts (input : List α) (events : List (List α)) (rest : List α) : Prop where
  flatten : events.flatten++rest = input
  cut : ∀ e ∈ events,(∃ s ∈ separators cr lf, s <:+ e) ∧ ∀ s ∈ separators cr lf, ¬s <:+: e.dropLast
  rest : ∀ s ∈ separators cr lf, ¬s <:+: rest

def walk (max : ℤ) : List (List α) → List α → List (Item α) × Ending
  | [],rest => flush max rest
  | e::es,rest =>
    if max < e.length then ([],.tooLarge)
    else
      let r := walk max es rest
      (item blank e::r.1,r.2)

section
variable {cr lf blank} {max : ℤ} {buffer e rest : List α}

theorem split_of_none (h : popSseEvent cr lf buffer = none) : split cr lf buffer = ([],buffer) := by
  unfold split
  split
  · rfl
  · next hsome => cases h.symm.trans hsome

theorem split_of_some (h : popSseEvent cr lf buffer = some (e,rest)) :
    split cr lf buffer = (e::(split cr lf rest).1,(split cr lf rest).2) := by
  rw [split]
  split
  · next hnone => cases h.symm.trans hnone
  · next hsome =>
      cases h.symm.trans hsome
      rfl

theorem drain_of_none (h : popSseEvent cr lf buffer = none) : drain cr lf blank max buffer =
    ([],if max < buffer.length then none else some buffer) := by
  unfold drain
  split
  · rfl
  · next hsome => cases h.symm.trans hsome

theorem drain_of_some (h : popSseEvent cr lf buffer = some (e,rest)) :
    drain cr lf blank max buffer = if max < e.length then ([],none) else
      (item blank e::(drain cr lf blank max rest).1,(drain cr lf blank max rest).2) := by
  rw [drain]
  split
  · next hnone => cases h.symm.trans hnone
  · next hsome =>
      cases h.symm.trans hsome
      rfl

/-- Event by event to a buffer without a separator. -/
theorem pop_induction (cr lf : α) {P : List α → Prop} (hnone : ∀ b, popSseEvent cr lf b = none → P b)
    (hsome : ∀ b e r, popSseEvent cr lf b = some (e,r) → P r → P b) (b : List α) : P b := by
  induction hn : b.length using Nat.strong_induction_on generalizing b with
  | _ n ih =>
    cases hp : popSseEvent cr lf b with
    | none => exact hnone b hp
    | some q => exact hsome b q.1 q.2 hp (ih _ (hn ▸ popSseEvent_length_lt hp) q.2 rfl)

theorem split_rest (b : List α) : popSseEvent cr lf (split cr lf b).2 = none := by
  induction b using pop_induction cr lf with
  | hnone b h => rw [split_of_none h,h]
  | hsome b e r h ih => rw [split_of_some h,ih]

theorem split_flatten (cr lf : α) (b : List α) : (split cr lf b).1.flatten++(split cr lf b).2 = b := by
  induction b using pop_induction cr lf with
  | hnone b h => rw [split_of_none h]; rfl
  | hsome b e r h ih =>
    rw [split_of_some h,List.flatten_cons,List.append_assoc,ih,(popSseEvent_spec h).1]

theorem split_cuts (hne : cr ≠ lf) (b : List α) :
    Cuts cr lf b (split cr lf b).1 (split cr lf b).2 := by
  refine ⟨split_flatten cr lf b,?_,popSseEvent_none (split_rest b)⟩
  induction b using pop_induction cr lf with
  | hnone b h => rw [split_of_none h]; simp
  | hsome b e r h ih =>
    rw [split_of_some h]
    exact List.forall_mem_cons.mpr ⟨popSseEvent_cut hne h,ih⟩

theorem split_append (hne : cr ≠ lf) (b more : List α) : split cr lf (b++more) =
    ((split cr lf b).1++(split cr lf ((split cr lf b).2++more)).1,
      (split cr lf ((split cr lf b).2++more)).2) := by
  induction b using pop_induction cr lf with
  | hnone b h => rw [split_of_none h]; rfl
  | hsome b e r h ih =>
    rw [split_of_some (popSseEvent_append hne h more),ih,split_of_some h]
    rfl

/-- An input that comes in two parts. A first part that stops the loop because
of what is left of it stops the walk as well. -/
theorem walk_append {b : List α} {fs : List (List α)} {r : List α}
    (hlong : 0 ≤ max ∨ (split cr lf b).1 = [] → max < (split cr lf b).2.length →
      walk blank max fs r = ([],.tooLarge)) :
    walk blank max ((split cr lf b).1++fs) r =
      match drain cr lf blank max b with
      | (items,none) => (items,.tooLarge)
      | (items,some _) => (items++(walk blank max fs r).1,(walk blank max fs r).2) := by
  induction b using pop_induction cr lf with
  | hnone b h =>
    rw [split_of_none h] at hlong ⊢
    rw [drain_of_none h]
    split_ifs with hlt
    · exact hlong (.inr rfl) hlt
    · rfl
  | hsome b e r' h ih =>
    rw [split_of_some h] at hlong ⊢
    rw [drain_of_some h,List.cons_append,walk]
    split_ifs with hlt
    · rfl
    · have hmax : 0 ≤ max := by omega
      rw [ih fun _ => hlong (.inl hmax)]
      rcases drain cr lf blank max r' with ⟨items,_ | rest⟩ <;> rfl

theorem drain_some {b : List α} {items : List (Item α)}
    (h : drain cr lf blank max b = (items,some rest)) : rest = (split cr lf b).2 := by
  induction b using pop_induction cr lf generalizing items with
  | hnone b hb =>
    rw [drain_of_none hb] at h
    rw [split_of_none hb]
    split_ifs at h
    · cases h
    · cases h
      rfl
  | hsome b e r hb ih =>
    rw [drain_of_some hb] at h
    rw [split_of_some hb]
    split_ifs at h
    · cases h
    · exact ih (Prod.ext rfl (Prod.mk.inj h).2)

theorem walk_of_long {r : List α} (hr : popSseEvent cr lf r = none) (hne : r ≠ [])
    (hlong : max < r.length) (more : List α) :
    walk blank max (split cr lf (r++more)).1 (split cr lf (r++more)).2 = ([],.tooLarge) := by
  cases hp : popSseEvent cr lf (r++more) with
  | none =>
    have hlt : max < (r++more).length := by
      rw [List.length_append]
      omega
    rw [split_of_none hp,walk,flush,if_neg (List.append_ne_nil_of_left_ne_nil hne more),if_pos hlt]
  | some q =>
    have hlt := length_lt_of_popSseEvent_append hr hp
    rw [split_of_some hp,walk,if_pos (by omega)]

theorem iterSseEvents_eq (hne : cr ≠ lf) (hnone : popSseEvent cr lf buffer = none)
    (chunks : List (List α)) : iterSseEvents cr lf blank max buffer chunks =
      walk blank max (split cr lf (buffer++chunks.flatten)).1
        (split cr lf (buffer++chunks.flatten)).2 := by
  induction chunks generalizing buffer with
  | nil => rw [List.flatten_nil,List.append_nil,split_of_none hnone]; rfl
  | cons chunk chunks ih =>
    rw [iterSseEvents,List.flatten_cons]
    split_ifs with hempty
    · rw [hempty,List.nil_append,ih hnone]
    · rw [← List.append_assoc,split_append hne]
      rw [walk_append]
      · rcases hd : drain cr lf blank max (buffer++chunk) with ⟨items,_ | rest⟩
        · rfl
        · obtain rfl := drain_some hd
          simp only [ih (split_rest _)]
      · refine fun hor hlt => walk_of_long (split_rest _) ?_ hlt _
        intro hrest
        have hflat := split_flatten cr lf (buffer++chunk)
        rw [hrest] at hflat hlt
        rcases hor with hmax | hes
        · rw [List.length_nil] at hlt
          omega
        · rw [hes] at hflat
          exact hempty (List.append_eq_nil_iff.mp hflat.symm).2

omit [DecidableEq α] in
/-- The events up to the first that is too large are taken off, and what
follows the last one only if none of all these is. -/
theorem walk_items {es : List (List α)} {r : List α} : (walk blank max es r).1 =
    (es.takeWhile fun e => e.length ≤ max).map (item blank)++
      if (walk blank max es r).2 = .finished ∧ r ≠ [] then [⟨r,true⟩] else [] := by
  induction es with
  | nil =>
    unfold walk flush
    split_ifs with hr hlt <;> simp_all
  | cons e es ih =>
    by_cases hlt : max < e.length
    · simp [walk,hlt]
    · rw [walk,if_neg hlt,List.takeWhile_cons_of_pos (by simpa using hlt)]
      simp [← ih]

omit [DecidableEq α] in
theorem walk_tooLarge {es : List (List α)} {r : List α} : (walk blank max es r).2 = .tooLarge ↔
    (∃ e ∈ es, max < (e.length : ℤ)) ∨ r ≠ [] ∧ max < (r.length : ℤ) := by
  induction es with
  | nil =>
    unfold walk flush
    split_ifs with hr hlt <;> simp_all
  | cons e es ih =>
    by_cases hlt : max < e.length
    · simp [walk,hlt]
    · simpa [walk,hlt] using ih

end

def isAsciiSpace (b : UInt8) : Bool := b ∈ [9,10,11,12,13,32]

/-- The events taken off a stream of bytes, and how the stream ends. -/
def sseItems (max : ℤ) (chunks : List (List UInt8)) : List (Item UInt8) × Ending :=
  iterSseEvents 13 10 isAsciiSpace max [] chunks

def yielded {T : Type*} (decode : List UInt8 → T) (items : List (Item UInt8)) : List T :=
  (items.filter Item.shown).map fun i => decode i.raw

/-- Cutting does not depend on the chunks the input comes in. With the input cut
behind each separator: the events before the first that is too large are taken
off, followed by the rest of the input when nothing is too large; the strings
yielded are those of the events that are not blank and of that rest. The loop
fails exactly when an event or the rest is too large. -/
theorem framing_independent_of_chunks {T : Type*} (decode : List UInt8 → T) (max : ℤ)
    (chunks : List (List UInt8)) :
    (yielded decode (sseItems max chunks).1,(sseItems max chunks).2) =
        (yielded decode (sseItems max [chunks.flatten]).1,(sseItems max [chunks.flatten]).2) ∧
      ∃ events rest fitting last,Cuts 13 10 chunks.flatten events rest ∧
        fitting = events.takeWhile (fun e => e.length ≤ max) ∧
        last = (if (sseItems max chunks).2 = .finished ∧ rest ≠ [] then [rest] else []) ∧
        (sseItems max chunks).1.map Item.raw = fitting++last ∧
        yielded decode (sseItems max chunks).1 =
          (fitting.filter (fun e => e.any fun b => !isAsciiSpace b)++last).map decode ∧
        ((sseItems max chunks).2 = .finished → (fitting++last).flatten = chunks.flatten) ∧
        ((sseItems max chunks).2 = .tooLarge ↔
          (∃ e ∈ events, max < (e.length : ℤ)) ∨ rest ≠ [] ∧ max < (rest.length : ℤ)) := by
  have heq (chunks : List (List UInt8)) : sseItems max chunks = walk isAsciiSpace max
      (split 13 10 chunks.flatten).1 (split 13 10 chunks.flatten).2 :=
    iterSseEvents_eq (by decide) rfl chunks
  rw [heq [chunks.flatten],List.flatten_singleton,← heq]
  have hcuts := split_cuts (show (13 : UInt8) ≠ 10 by decide) chunks.flatten
  have hitems : (sseItems max chunks).1 = _ := (congrArg Prod.fst (heq chunks)).trans walk_items
  have hlarge : (sseItems max chunks).2 = .tooLarge ↔ _ := (heq chunks) ▸ walk_tooLarge
  rw [← heq] at hitems
  refine ⟨rfl,_,_,_,_,hcuts,rfl,rfl,?_,?_,fun hend => ?_,hlarge⟩
  · rw [hitems,List.map_append,List.map_map]
    split_ifs <;> simp [Function.comp_def,item]
  · rw [yielded,hitems,List.filter_append,List.filter_map]
    split_ifs <;> simp [Function.comp_def,item]
  · have hfit : ∀ e ∈ (split 13 10 chunks.flatten).1, e.length ≤ max := by
      intro e he
      by_contra hlt
      cases hend.symm.trans (hlarge.mpr (.inl ⟨e,he,Int.not_le.mp hlt⟩))
    rw [List.takeWhile_eq_self_iff.mpr (by simpa using hfit)]
    conv_rhs => rw [← hcuts.flatten]
    by_cases hrest : (split 13 10 chunks.flatten).2 = [] <;> simp [hend,hrest]

end CodexLb.SseFraming
