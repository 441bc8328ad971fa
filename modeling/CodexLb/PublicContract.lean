import CodexLb.PublicEvents

/-!
# The contract of the public stream

An OpenAI client needs one created event, first, and one terminal event, last.
The stream keeps to it as long as no event slips through before the response was
created, no second created event follows one that was made up, and no event has
a type the stream cannot look up.
-/
namespace CodexLb.Public
open Json StreamState

def payloads (blocks : List Block) : List Object :=
  blocks.filterMap fun b => match b with
    | .payload o => some o
    | _ => none

/-- The events of a client stream: one created event, first, and one terminal
event, last. -/
def Contract (es : List Object) : Prop :=
  es.head?.any isCreated = true ∧ es.countP isCreated = 1 ∧ es.countP isTerminal = 1 ∧
    es.getLast?.any isTerminal = true

instance (es : List Object) : Decidable (Contract es) := inferInstanceAs (Decidable (_ ∧ _ ∧ _ ∧ _))

def EndsTerminal (ps : List Object) : Prop := ∀ p ∈ ps.dropLast, isTerminal p = false

/-- The events before the terminal one that are not dropped. -/
def publicEvents (ps : List Object) : List Object :=
  (ps.filter (!isTerminal ·)).filterMap fun p => (normalizePayload p).1

def isHeld (e : Object) : Bool := (eventType e).any shouldBuffer && (e.obj? "response").isNone

/-- An event at which the response counts as created. -/
def opens (e : Object) : Bool :=
  (eventType e).isSome && (isCreated e || (e.obj? "response").isSome)

/-- A terminal event that carries a response once it is normalised. -/
def carriesResponse (t : Object) : Bool :=
  ((normalizePayload t).1.bind (·.obj? "response")).isSome

/-- Events that come after some that are held back, in an order the stream can
serve. -/
def Orderly (held es : List Object) (terminal : Option Object) : Prop :=
  bufferLimit < (held++es.takeWhile isHeld).length ∨
    match es.dropWhile isHeld with
    | [] => ∀ t, terminal = some t → carriesResponse t = true → Replays (held++es.takeWhile isHeld)
    | e::later => opens e = true ∧ Replays (held++es.takeWhile isHeld) ∧
        (∀ x ∈ later, typeHashable x = true) ∧ (isCreated e = true ∨ ∀ x ∈ later, isCreated x = false)

theorem contract_iff {created terminal : Object} {middle : List Object}
    (hcreated : isCreated created = true) (hmiddle : ∀ e ∈ middle, isTerminal e = false)
    (hterminal : isTerminal terminal = true) :
    Contract (created::(middle++[terminal])) ↔ ∀ e ∈ middle, isCreated e = false := by
  have hfirst : isTerminal created = false := by
    by_contra h
    rw [not_created_of_terminal (Bool.not_eq_false _ ▸ h)] at hcreated
    cases hcreated
  have hlast := not_created_of_terminal hterminal
  have hnone : middle.countP isTerminal = 0 := by
    rw [List.countP_eq_zero]
    intro e he
    simp [hmiddle e he]
  have hzero : middle.countP isCreated = 0 ↔ ∀ e ∈ middle, isCreated e = false := by
    simp [List.countP_eq_zero]
  unfold Contract
  simp only [List.head?_cons,Option.any_some,hcreated,List.countP_cons,List.countP_append,
    List.countP_nil,hfirst,hlast,hnone,hterminal,if_true,Bool.false_eq_true,if_false,Nat.add_zero,
    Nat.zero_add,Nat.add_eq_right,hzero]
  simp [List.getLast?_cons,hterminal]

variable {es : List Object}

theorem not_contract_of_open (h : ∀ e ∈ es, isTerminal e = false) : ¬Contract es := by
  rintro ⟨-,-,hcount,-⟩
  have hzero : es.countP isTerminal = 0 := by
    rw [List.countP_eq_zero]
    intro e he
    simp [h e he]
  omega

theorem not_contract_of_head {rest : List Object} (hne : es ≠ [])
    (h : ∀ e ∈ es, isCreated e = false) : ¬Contract (es++rest) := by
  rintro ⟨hhead,-⟩
  cases es with
  | nil => exact hne rfl
  | cons e es =>
    rw [List.cons_append,List.head?_cons,Option.any_some,h e List.mem_cons_self] at hhead
    cases hhead

theorem failedBlocks_contract {failed : Object} (hterminal : isTerminal failed = true)
    (hresponse : (failed.obj? "response").isSome = true) :
    Contract (failedBlocks failed true) := by
  obtain ⟨response,hobj⟩ := Option.isSome_iff_exists.mp hresponse
  obtain ⟨created,hcreated⟩ : ∃ created, syntheticCreated failed = some created := by
    simp [syntheticCreated,hobj]
  have htype : isCreated created = true := syntheticCreated_created hcreated
  have hblocks : failedBlocks failed true = created::([]++[failed]) := by
    simp [failedBlocks,hcreated]
  have hnone : ∀ e ∈ ([] : List Object), isTerminal e = false := by simp
  rw [hblocks,contract_iff htype hnone hterminal]
  simp

theorem events_append (a b : List Out) : events (a++b) = events a++events b :=
  List.filterMap_append

theorem events_map (es : List Object) : events (es.map .event) = es := by
  rw [events,List.filterMap_map]
  exact List.filterMap_some

variable {p : Object} {ps : List Object}

theorem EndsTerminal.tail (h : EndsTerminal (p::ps)) : EndsTerminal ps := by
  cases ps with
  | nil => exact nofun
  | cons q ps => exact fun x hx => h x (List.mem_cons_of_mem p hx)

theorem EndsTerminal.nil_of_terminal (h : EndsTerminal (p::ps)) (hp : isTerminal p = true) :
    ps = [] := by
  cases ps with
  | nil => rfl
  | cons q ps =>
    rw [h p List.mem_cons_self] at hp
    cases hp

theorem publicEvents_terminal (hp : isTerminal p = true) : publicEvents [p] = [] := by
  simp [publicEvents,hp]

theorem publicEvents_cons (hp : isTerminal p = false) (ps : List Object) :
    publicEvents (p::ps) = (normalizePayload p).1.toList++publicEvents ps := by
  unfold publicEvents
  rw [List.filter_cons,if_pos (by simp [hp])]
  cases h : (normalizePayload p).1 with
  | none | some e => simp [h]

def Noise (b : Block) : Prop := ∀ o, b ≠ .payload o

theorem payload_or_noise (b : Block) : (∃ p, b = .payload p) ∨ Noise b := by
  cases b with
  | payload p => exact .inl ⟨p,rfl⟩
  | _ => exact .inr nofun

variable {b : Block}

theorem payloads_noise (hb : Noise b) (bs : List Block) : payloads (b::bs) = payloads bs := by
  cases b with
  | payload o => exact absurd rfl (hb o)
  | _ => rfl

theorem relay_noise (hb : Noise b) (st : StreamState) (bs : List Block) :
    ∃ st', events (streamFrom st (b::bs)) = events (streamFrom st' bs) ∧
      st'.createdEmitted = st.createdEmitted ∧ st'.terminalSeen = st.terminalSeen ∧
      st'.buffer = st.buffer ∧ st'.outputItems = st.outputItems := by
  cases b with
  | done =>
    refine ⟨{st with doneSeen := true},?_,rfl,rfl,rfl,rfl⟩
    simp only [streamFrom,relay,events_append]
    split_ifs
    · rfl
    · rfl
  | comment text | other => exact ⟨st,rfl,rfl,rfl,rfl,rfl⟩
  | invalid => exact ⟨st.noteViolation (some .invalidJson),rfl,rfl,rfl,rfl,rfl⟩
  | payload o => exact absurd rfl (hb o)

variable {st : StreamState}

theorem events_after_terminal {blocks : List Block} (hseen : st.terminalSeen = true)
    (hnone : payloads blocks = []) : events (streamFrom st blocks) = [] := by
  induction blocks generalizing st with
  | nil => simp [streamFrom,finish,hseen,events]
  | cons b bs ih =>
    rcases payload_or_noise b with ⟨p,rfl⟩ | hb
    · cases hnone
    · rw [payloads_noise hb] at hnone
      obtain ⟨st',heq,-,hterminal,-⟩ := relay_noise hb st bs
      rw [heq]
      exact ih (hterminal.trans hseen) hnone

section PassOn
variable (st : StreamState) {e : Object}

theorem passOn_hashable (h : typeHashable e = true) :
    ∃ deltas st', st.passOn e = ((deltas++[e]).map .event,.continue st') ∧
      (∀ d ∈ deltas, Plain d) ∧ st'.createdEmitted = st.createdEmitted ∧
      st'.terminalSeen = (st.terminalSeen || isTerminal e) ∧
      st'.outputItems = collectOutputItem e st.outputItems := by
  have hsome := syntheticTextDeltas_isSome e (st.seenWith e)
  rw [h] at hsome
  obtain ⟨r,hr⟩ := Option.isSome_iff_exists.mp hsome
  unfold passOn
  simp only [hr]
  exact ⟨r.1,_,rfl,syntheticTextDeltas_plain hr,rfl,rfl,rfl⟩

theorem passOn_unhashable (h : typeHashable e = false) : st.passOn e = ([],.raise) := by
  have hnone := syntheticTextDeltas_isSome e (st.seenWith e)
  rw [h,Option.isSome_eq_false_iff,Option.isNone_iff_eq_none] at hnone
  unfold passOn
  simp only [hnone]

end PassOn

theorem backfill_of_open (st : StreamState) (hp : isTerminal p = false) : st.backfill p = p := by
  unfold backfill
  rw [not_finished hp]
  rfl

theorem backfill_type (st : StreamState) (p : Object) : (st.backfill p).get? "type" = p.get? "type" := by
  unfold backfill
  split_ifs
  · split
    · split_ifs
      · rw [Object.get?_set,if_neg (by decide)]
      · rfl
    · rfl
  · rfl

variable {e : Object}

theorem relayPayload_created (hcreated : st.createdEmitted = true)
    (he : (normalizePayload (st.backfill p)).1 = some e) :
    st.relayPayload p = (st.noteViolation (normalizePayload (st.backfill p)).2).passOn e := by
  unfold relayPayload
  simp only [he,noteViolation,hcreated]

theorem relayPayload_dropped (st : StreamState) (he : (normalizePayload (st.backfill p)).1 = none) :
    st.relayPayload p =
      ([],.continue (st.noteViolation (normalizePayload (st.backfill p)).2)) := by
  unfold relayPayload
  simp only [he]

/-- The rest of a stream that can be served: its events, and a terminal one. -/
def Served (es out : List Object) : Prop :=
  ∃ middle t, out = middle++[t] ∧ (∀ e ∈ middle, isTerminal e = false) ∧ isTerminal t = true ∧
    ((∀ e ∈ middle, isCreated e = false) ↔ ∀ e ∈ es, isCreated e = false)

theorem Served.cons {out deltas : List Object} (h : Served es out) (he : isTerminal e = false)
    (hdeltas : ∀ d ∈ deltas, Plain d) : Served (e::es) (deltas++[e]++out) := by
  obtain ⟨middle,t,rfl,hmiddle,ht,hcreated⟩ := h
  refine ⟨deltas++[e]++middle,t,by simp,?_,ht,?_⟩
  · simp only [List.mem_append,List.mem_singleton]
    rintro x ((hx | rfl) | hx)
    · exact (hdeltas x hx).2
    · exact he
    · exact hmiddle x hx
  · simp only [List.mem_append,List.mem_singleton,List.forall_mem_cons,← hcreated]
    constructor
    · exact fun hall => ⟨hall e (.inl (.inr rfl)),fun x hx => hall x (.inr hx)⟩
    · rintro ⟨hfirst,hrest⟩ x ((hx | rfl) | hx)
      · exact (hdeltas x hx).1
      · exact hfirst
      · exact hrest x hx

structure Created (st : StreamState) : Prop where
  created : st.createdEmitted = true
  unfinished : st.terminalSeen = false

namespace Created
variable {st : StreamState} {p : Object} {bs : List Block}

theorem terminal (h : Created st) (hends : EndsTerminal (p::payloads bs))
    (hp : isTerminal p = true) :
    ∃ deltas e, (normalizePayload (st.backfill p)).1 = some e ∧ (∀ d ∈ deltas, Plain d) ∧
      isTerminal e = true ∧ events (streamFrom st (.payload p::bs)) = deltas++[e] := by
  have hback : isTerminal (st.backfill p) = true := (isType_congr (backfill_type st p) _).trans hp
  obtain ⟨e,he,hterminal⟩ := normalizePayload_terminal hback
  obtain ⟨t,_,ht⟩ := isType_iff.mp hterminal
  obtain ⟨deltas,st',hpass,hplain,-,hseen,-⟩ := passOn_hashable
    (st.noteViolation (normalizePayload (st.backfill p)).2) (typeHashable_of_eventType ht)
  refine ⟨deltas,e,he,hplain,hterminal,?_⟩
  simp only [streamFrom,relay,relayPayload_created h.created he,hpass,events_append,
    events_map]
  rw [events_after_terminal (by rw [hseen,hterminal,Bool.or_true]) (hends.nil_of_terminal hp),
    List.append_nil]

theorem dropped (h : Created st) (hp : isTerminal p = false) (he : (normalizePayload p).1 = none)
    (bs : List Block) :
    ∃ st', Created st' ∧ st'.outputItems = st.outputItems ∧
      events (streamFrom st (.payload p::bs)) = events (streamFrom st' bs) := by
  have hback := backfill_of_open st hp
  have hrelay := relayPayload_dropped st (p := p) (by rw [hback,he])
  refine ⟨st.noteViolation (normalizePayload p).2,⟨h.created,h.unfinished⟩,rfl,?_⟩
  simp only [streamFrom,relay,hrelay,hback,List.nil_append]

variable {e : Object}

theorem passed (h : Created st) (hp : isTerminal p = false) (he : (normalizePayload p).1 = some e)
    (hhash : typeHashable e = true) (bs : List Block) :
    ∃ deltas st', Created st' ∧ (∀ d ∈ deltas, Plain d) ∧ isTerminal e = false ∧
      st'.outputItems = collectOutputItem e st.outputItems ∧
      events (streamFrom st (.payload p::bs)) = deltas++[e]++events (streamFrom st' bs) := by
  have hback := backfill_of_open st hp
  have hopen : isTerminal e = false := (isType_congr (normalizePayload_type he hp) _).trans hp
  have hrelay := relayPayload_created h.created (p := p) (by rw [hback,he])
  obtain ⟨deltas,st',hpass,hplain,hcreated,hseen,hitems⟩ := passOn_hashable
    (st.noteViolation (normalizePayload p).2) hhash
  rw [hback,hpass] at hrelay
  refine ⟨deltas,st',⟨hcreated.trans h.created,?_⟩,hplain,hopen,hitems,?_⟩
  · rw [hseen,hopen,Bool.or_false]
    exact h.unfinished
  · simp only [streamFrom,relay,hrelay,events_append,events_map]

theorem raised (h : Created st) (hp : isTerminal p = false) (he : (normalizePayload p).1 = some e)
    (hhash : typeHashable e = false) : events (streamFrom st (.payload p::bs)) = [] := by
  have hback := backfill_of_open st hp
  have hrelay := relayPayload_created h.created (p := p) (by rw [hback,he])
  rw [hback,passOn_unhashable _ hhash] at hrelay
  simp only [streamFrom,relay,hrelay]
  rfl

variable {blocks : List Block}

/-- The rest of the stream is served, or an event that cannot be looked up ends it
before the terminal one. -/
theorem outcome (h : Created st) (hends : EndsTerminal (payloads blocks)) :
    (∀ e ∈ publicEvents (payloads blocks), typeHashable e = true) ∧
        Served (publicEvents (payloads blocks)) (events (streamFrom st blocks)) ∨
      (∃ e ∈ publicEvents (payloads blocks), typeHashable e = false) ∧
        ∀ e ∈ events (streamFrom st blocks), isTerminal e = false := by
  induction blocks generalizing st with
  | nil =>
    refine .inl ⟨nofun,[],violationEvent st.errorKind (some ("resp_"++st.errorKind.name)),?_,
      by simp,rfl,by simp [publicEvents,payloads]⟩
    simp [streamFrom,finish,h.unfinished,h.created,violationBlocks,failedBlocks,events,Out.event?]
  | cons b bs ih =>
    rcases payload_or_noise b with ⟨p,rfl⟩ | hb
    · have hends' : EndsTerminal (p::payloads bs) := hends
      have hpayloads : payloads (.payload p::bs) = p::payloads bs := rfl
      rw [hpayloads]
      by_cases hp : isTerminal p = true
      · obtain ⟨deltas,e,-,hplain,hterminal,hout⟩ := h.terminal hends' hp
        rw [hout,hends'.nil_of_terminal hp,publicEvents_terminal hp]
        refine .inl ⟨nofun,deltas,e,rfl,fun d hd => (hplain d hd).2,hterminal,?_⟩
        exact iff_of_true (fun d hd => (hplain d hd).1) nofun
      · have hp' : isTerminal p = false := by simpa using hp
        rw [publicEvents_cons hp']
        cases he : (normalizePayload p).1 with
        | none =>
          obtain ⟨st',hcreated,-,hout⟩ := h.dropped hp' he bs
          rw [hout]
          exact ih hcreated hends'.tail
        | some e =>
          rw [Option.toList_some,List.singleton_append]
          cases hfirst : typeHashable e with
          | false =>
            rw [h.raised hp' he hfirst]
            exact .inr ⟨⟨e,List.mem_cons_self,hfirst⟩,nofun⟩
          | true =>
            obtain ⟨deltas,st',hcreated,hplain,hopen,-,hout⟩ := h.passed hp' he hfirst bs
            rw [hout]
            rcases ih hcreated hends'.tail with ⟨hhash,hserved⟩ | ⟨⟨x,hx,hbad⟩,hrest⟩
            · exact .inl ⟨List.forall_mem_cons.mpr ⟨hfirst,hhash⟩,hserved.cons hopen hplain⟩
            · refine .inr ⟨⟨x,List.mem_cons_of_mem _ hx,hbad⟩,?_⟩
              simp only [List.mem_append,List.mem_singleton]
              rintro y ((hy | rfl) | hy)
              · exact (hplain y hy).2
              · exact hopen
              · exact hrest y hy
    · rw [payloads_noise hb] at hends ⊢
      obtain ⟨st',hout,hcreated,hseen,-⟩ := relay_noise hb st bs
      rw [hout]
      exact ih ⟨hcreated.trans h.created,hseen.trans h.unfinished⟩ hends

end Created

end CodexLb.Public
