import CodexLb.PublicStream

/-!
# What a public event can be

Normalising keeps the type of an event that is not terminal, and a terminal
event stays terminal. The events the stream makes up before a response was
created and for texts that were not streamed are neither created nor terminal.
Replaying fails only on the part of a `response.content_part.done`.
-/
namespace CodexLb.Public
open Json

variable {a b : Object}

theorem isType_congr (h : a.get? "type" = b.get? "type") (types : List String) :
    isType a types = isType b types := by
  unfold isType eventType Object.text?
  rw [h]

variable {p : Object} {types : List String}

theorem isType_iff : isType p types = true ↔ ∃ t ∈ types, eventType p = some t := by
  unfold isType
  cases eventType p with
  | none | some t => simp

/-- An event that neither opens nor ends a stream. -/
def Plain (e : Object) : Prop := isCreated e = false ∧ isTerminal e = false

variable {e : Object} {t : String}

theorem plain_of_type (h : eventType e = some t) (hcreated : t ≠ "response.created")
    (hterminal : t ∉ ["response.completed","response.incomplete","response.failed","error"]) :
    Plain e := by
  unfold Plain isCreated isTerminal isType
  rw [h]
  refine ⟨?_,?_⟩
  · simpa using hcreated
  · exact decide_eq_false hterminal

theorem Plain.congr (h : a.get? "type" = b.get? "type") (hb : Plain b) : Plain a :=
  ⟨(isType_congr h _).trans hb.1,(isType_congr h _).trans hb.2⟩

theorem not_created_of_terminal (h : isTerminal e = true) : isCreated e = false := by
  obtain ⟨t,ht,he⟩ := isType_iff.mp h
  unfold isCreated isType
  rw [he]
  simp only [List.mem_cons,List.not_mem_nil,or_false] at ht
  rcases ht with rfl | rfl | rfl | rfl
  · decide
  · decide
  · decide
  · decide

variable (hp : isTerminal p = false)
include hp

theorem isType_of_open
    (hsub : types ⊆ ["response.completed","response.incomplete","response.failed","error"]) :
    isType p types = false := by
  by_contra h
  obtain ⟨t,ht,he⟩ := isType_iff.mp (Bool.not_eq_false _ ▸ h)
  have hterminal : isTerminal p = true := isType_iff.mpr ⟨t,hsub ht,he⟩
  rw [hp] at hterminal
  cases hterminal

theorem not_finished : isFinished p = false :=
  isType_of_open hp (by decide)

theorem not_error : isType p ["error"] = false :=
  isType_of_open hp (by decide)

theorem not_failed : isType p ["response.failed"] = false :=
  isType_of_open hp (by decide)

omit hp

theorem typeHashable_of_eventType (h : eventType e = some t) : typeHashable e = true := by
  obtain ⟨v,hv,ht⟩ := Option.bind_eq_some_iff.mp h
  unfold typeHashable
  rw [hv]
  cases v with
  | str s => rfl
  | _ => cases ht

theorem normalizePayload_type (h : (normalizePayload p).1 = some e) (hp : isTerminal p = false) :
    e.get? "type" = p.get? "type" := by
  unfold normalizePayload at h
  rw [not_error hp,not_finished hp] at h
  simp only [Bool.false_eq_true,if_false] at h
  split_ifs at h
  · unfold normalizeItemEvent at h
    split at h
    · cases h
    · split at h
      · cases h
      · cases h
        rw [Object.get?_set,if_neg (by decide)]
  · cases h
    rfl

theorem normalizeFinished_spec (h : isFinished p = true) :
    isTerminal (normalizeFinished p).1 = true ∧
      ((normalizeFinished p).1.obj? "response").isSome = true := by
  unfold normalizeFinished
  split
  · exact ⟨rfl,rfl⟩
  · split
    · exact ⟨rfl,rfl⟩
    · refine ⟨?_,?_⟩
      · obtain ⟨t,ht,he⟩ := isType_iff.mp h
        apply isType_iff.mpr
        refine ⟨t,?_,?_⟩
        · simp only [List.mem_cons,List.not_mem_nil,or_false] at ht ⊢
          tauto
        · unfold eventType at he ⊢
          rw [Object.text?_set_other _ (by decide)]
          exact he
      · unfold Object.obj?
        rw [Object.get?_set,if_pos rfl]
        rfl

theorem normalizePayload_finished (h : isFinished p = true) :
    (normalizePayload p).1 = some (normalizeFinished p).1 := by
  obtain ⟨t,ht,he⟩ := isType_iff.mp h
  unfold normalizePayload isVendorEvent
  rw [h]
  unfold isType
  rw [he]
  simp only [List.mem_cons,List.not_mem_nil,or_false] at ht
  rcases ht with rfl | rfl
  · rfl
  · rfl

theorem normalizePayload_terminal (h : isTerminal p = true) :
    ∃ e, (normalizePayload p).1 = some e ∧ isTerminal e = true := by
  by_cases hfinished : isFinished p = true
  · exact ⟨_,normalizePayload_finished hfinished,(normalizeFinished_spec hfinished).1⟩
  · obtain ⟨t,ht,he⟩ := isType_iff.mp h
    have hbody : (normalizePayload p).1 = some (normalizeError p) ∨
        (normalizePayload p).1 = some p := by
      unfold isFinished isType at hfinished
      unfold normalizePayload isVendorEvent isFinished isItemEvent isType
      rw [he] at hfinished ⊢
      simp only [List.mem_cons,List.not_mem_nil,or_false] at ht
      rcases ht with rfl | rfl | rfl | rfl
      · exact absurd rfl hfinished
      · exact absurd rfl hfinished
      · exact .inr rfl
      · exact .inl rfl
    rcases hbody with hbody | hbody
    · refine ⟨_,hbody,?_⟩
      unfold normalizeError
      split
      · rfl
      · exact h
    · exact ⟨_,hbody,h⟩

theorem plain_of_rows (t : String) (rows : List (String × Json)) (hcreated : t ≠ "response.created")
    (hterminal : t ∉ ["response.completed","response.incomplete","response.failed","error"]) :
    Plain ⟨("type",.str t)::rows⟩ :=
  plain_of_type rfl hcreated hterminal

variable {seen : List TextKey}

theorem syntheticTextDelta_plain {o : Json} {i : ℤ} {item : Object} {r : Object × TextKey}
    (h : syntheticTextDelta o i item seen = some r) : Plain r.1 := by
  unfold syntheticTextDelta at h
  simp only [Option.bind_eq_bind,Option.bind_eq_some_iff] at h
  obtain ⟨normalized,_,text,_,h⟩ := h
  split at h
  · cases h
  · cases h
    split
    · refine Plain.congr (b := ⟨[("type",.str "response.output_text.delta"),("output_index",o),
        ("content_index",.int 0),("delta",.str text)]⟩) ?_
        (plain_of_rows _ _ (by decide) (by decide))
      rw [Object.get?_set,if_neg (by decide)]
    · exact plain_of_rows "response.output_text.delta" _ (by decide) (by decide)

theorem syntheticDeltas_plain {items : List Json} (i : ℕ) (seen : List TextKey) :
    ∀ e ∈ (syntheticDeltas i items seen).1, Plain e := by
  induction items generalizing i seen with
  | nil => exact nofun
  | cons item items ih =>
    intro e he
    unfold syntheticDeltas at he
    split at he
    · exact ih _ _ e he
    · rename_i event key hdelta
      rcases List.mem_cons.mp he with rfl | hrest
      · obtain ⟨_,_,hsome⟩ := Option.bind_eq_some_iff.mp hdelta
        exact syntheticTextDelta_plain hsome
      · exact ih _ _ e hrest

theorem syntheticTextDeltas_plain {r : List Object × List TextKey}
    (h : syntheticTextDeltas p seen = some r) : ∀ e ∈ r.1, Plain e := by
  unfold syntheticTextDeltas at h
  split at h
  · split at h
    · rename_i hdelta
      cases h
      intro e he
      rw [List.mem_singleton.mp he]
      exact syntheticTextDelta_plain hdelta
    · cases h
      exact nofun
  · split_ifs at h
    · cases h
      exact syntheticDeltas_plain _ _
    · cases h
      exact nofun

theorem syntheticTextDeltas_isSome (p : Object) (seen : List TextKey) :
    (syntheticTextDeltas p seen).isSome = typeHashable p := by
  unfold syntheticTextDeltas
  split
  · rename_i hdone
    split_ifs at hdone with htype
    · obtain ⟨t,_,ht⟩ := isType_iff.mp htype
      rw [typeHashable_of_eventType ht]
      split
      · rfl
      · rfl
  · by_cases hhash : typeHashable p = true
    · rw [if_pos hhash,hhash]
      split_ifs
      · rfl
      · rfl
    · rw [if_neg hhash]
      simpa using hhash

/-- The part of a `response.content_part.done` has a type that can be looked up. -/
def partHashable (p : Object) : Bool :=
  !isType p ["response.content_part.done"] ||
    (p.obj? "part").all fun part => (part.get? "type").all Json.hashable

/-- The replay of what was held back does not raise. -/
def Replays (held : List Object) : Prop :=
  hasIndexedLifecycle held = true ∨ ∀ p ∈ held, partHashable p = true

theorem isType_false_of_type (h : eventType p = some t) (hnot : t ∉ types) :
    isType p types = false := by
  unfold isType
  rw [h]
  exact decide_eq_false hnot

variable {r : Replay} {itemId : String}

theorem addPart_isSome : (r.addPart itemId p).isSome =
      (p.obj? "part").all fun part => (part.get? "type").all Json.hashable := by
  unfold Replay.addPart
  cases p.obj? "part" with
  | none => rfl
  | some part =>
    simp only [Option.all_some]
    split_ifs with hhash htext
    · exact hhash.symm
    · exact hhash.symm
    · simpa using hhash

theorem add_isSome (itemId : String) (r : Replay) (p : Object) :
    (r.add itemId p).isSome = partHashable p := by
  unfold Replay.add partHashable
  by_cases hreplay : isType p replayableTypes = true
  · rw [if_pos hreplay]
    obtain ⟨t,ht,hp⟩ := isType_iff.mp hreplay
    simp only [replayableTypes,List.mem_cons,List.not_mem_nil,or_false] at ht
    simp only [isType,hp,Option.any_some]
    rcases ht with rfl | rfl | rfl | rfl | rfl
    · rfl
    · rfl
    · exact addPart_isSome
    · rfl
    · rfl
  · rw [if_neg hreplay]
    have hnot : isType p ["response.content_part.done"] = false := by
      by_contra hdone
      obtain ⟨t,ht,hp⟩ := isType_iff.mp (Bool.not_eq_false _ ▸ hdone)
      refine hreplay (isType_iff.mpr ⟨t,?_,hp⟩)
      rw [List.mem_singleton.mp ht]
      decide
    rw [hnot]
    rfl

theorem foldlM_add_isSome (held : List Object) (r : Replay) :
    (held.foldlM (Replay.add itemId) r).isSome = held.all partHashable := by
  induction held generalizing r with
  | nil => rfl
  | cons p held ih =>
    have hadd := add_isSome itemId r p
    rw [List.foldlM_cons,List.all_cons,← hadd]
    cases r.add itemId p with
    | none => rfl
    | some r' => simpa using ih r'

theorem replayBuffer_isSome (held : List Object) (id : Option String) (seen : List TextKey) :
    (replayBuffer held id seen).isSome = true ↔ Replays held := by
  unfold replayBuffer Replays replayPayloads
  by_cases hindexed : hasIndexedLifecycle held = true
  · simp [hindexed]
  · simp only [hindexed,Bool.false_eq_true,if_false,Option.isSome_map,foldlM_add_isSome,
      List.all_eq_true,false_or]

theorem placed_type : (r.placed itemId p).get? "type" = p.get? "type" := by
  unfold Replay.placed
  rw [Object.get?_set,if_neg (by decide),Object.get?_set,if_neg (by decide),Object.get?_set,
    if_neg (by decide),Object.get?_set,if_neg (by decide)]

theorem setDefault_type {o : Object} {key : String} (hkey : "type" ≠ key) {value : Json} :
    (o.setDefault key value).get? "type" = o.get? "type" := by
  unfold Object.setDefault
  split_ifs
  · rfl
  · rw [Object.get?_set,if_neg hkey]

theorem plain_of_replayable (h : isType p replayableTypes = true) : Plain p := by
  obtain ⟨t,ht,hp⟩ := isType_iff.mp h
  simp only [replayableTypes,List.mem_cons,List.not_mem_nil,or_false] at ht
  rcases ht with rfl | rfl | rfl | rfl | rfl
  · exact plain_of_type hp (by decide) (by decide)
  · exact plain_of_type hp (by decide) (by decide)
  · exact plain_of_type hp (by decide) (by decide)
  · exact plain_of_type hp (by decide) (by decide)
  · exact plain_of_type hp (by decide) (by decide)

def Replay.AllPlain (r : Replay) : Prop := ∀ e ∈ r.formatted, Plain e

theorem allPlain_snoc {es : List Object} (h : ∀ x ∈ es, Plain x) (he : Plain e) :
    ∀ x ∈ es++[e], Plain x := by
  intro x hx
  rcases List.mem_append.mp hx with hold | hnew
  · exact h x hold
  · rw [List.mem_singleton.mp hnew]
    exact he

namespace Replay.AllPlain
variable {r : Replay} {itemId : String} {p : Object}

variable (h : r.AllPlain)
include h

theorem openTextItem (itemId : String) : (r.openTextItem itemId).AllPlain := by
  unfold Replay.openTextItem
  split_ifs
  · exact h
  · intro e he
    simp only [List.mem_append,List.mem_cons,List.not_mem_nil,or_false] at he
    rcases he with hold | rfl | rfl
    · exact h e hold
    · exact plain_of_rows "response.output_item.added" _ (by decide) (by decide)
    · exact plain_of_rows "response.content_part.added" _ (by decide) (by decide)

theorem addDelta (hp : Plain p) : (r.addDelta itemId p).AllPlain := by
  unfold Replay.addDelta
  split
  · exact h
  · refine allPlain_snoc (h.openTextItem itemId) (hp.congr ?_)
    rw [setDefault_type (by decide),placed_type]

theorem addDone (hp : Plain p) : (r.addDone itemId p).AllPlain := by
  refine allPlain_snoc (h.openTextItem itemId) (hp.congr ?_)
  rw [setDefault_type (by decide),placed_type]

variable {r' : Replay}

theorem addPart (hp : Plain p) (hadd : r.addPart itemId p = some r') : r'.AllPlain := by
  unfold Replay.addPart at hadd
  split at hadd
  · cases hadd
    exact allPlain_snoc h hp
  · split_ifs at hadd
    · cases hadd
      refine allPlain_snoc (AllPlain.openTextItem ?_ itemId) (hp.congr (placed_type))
      exact h
    · cases hadd
      exact allPlain_snoc h hp

theorem add (hadd : r.add itemId p = some r') : r'.AllPlain := by
  unfold Replay.add at hadd
  split_ifs at hadd with hreplay hdelta hdone
  · cases hadd
    exact addDelta h (plain_of_replayable hreplay)
  · cases hadd
    exact addDone h (plain_of_replayable hreplay)
  · exact addPart (r := {r with
      sequenceNumber := payloadSequenceNumber p r.nextSequenceNumber}) h
      (plain_of_replayable hreplay) hadd
  · cases hadd
    exact h

theorem closeTextItem (itemId : String) : (r.closeTextItem itemId).AllPlain := by
  unfold Replay.closeTextItem
  split_ifs
  · exact allPlain_snoc h (plain_of_rows "response.output_item.done" _ (by decide) (by decide))
  · exact h

theorem foldlM {held : List Object}
    (hfold : held.foldlM (Replay.add itemId) r = some r') : r'.AllPlain := by
  induction held generalizing r with
  | nil =>
    cases hfold
    exact h
  | cons p held ih =>
    obtain ⟨r1,hadd,hrest⟩ := Option.bind_eq_some_iff.mp hfold
    exact ih (h.add hadd) hrest

omit h

end Replay.AllPlain

theorem replayBuffer_plain {held : List Object} {id : Option String}
    {out : List Object × List TextKey} (h : replayBuffer held id seen = some out) :
    ∀ e ∈ out.1, Plain e := by
  unfold replayBuffer at h
  split_ifs at h
  · cases h
    exact nofun
  · obtain ⟨r,hfold,rfl⟩ := Option.map_eq_some_iff.mp h
    have hstart : Replay.AllPlain ⟨[],false,[],none,.int 0,seen⟩ := nofun
    exact (hstart.foldlM hfold).closeTextItem _

theorem syntheticCreated_created {created : Object} (h : syntheticCreated p = some created) :
    isCreated created = true := by
  obtain ⟨response,_,rfl⟩ := Option.map_eq_some_iff.mp h
  split
  · split_ifs
    · refine isType_iff.mpr ⟨"response.created",by decide,?_⟩
      rfl
    · rfl
  · rfl

theorem syntheticCreated_isSome (p : Object) :
    (syntheticCreated p).isSome = (p.obj? "response").isSome := by
  rw [syntheticCreated,Option.isSome_map]

end CodexLb.Public
