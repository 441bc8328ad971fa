import CodexLb.PublicContract

/-!
# Events before the created event

Until the response was created the stream holds events back, at most 64 of them.
What it has sent by then is nothing, or an event that must not come first.
-/
namespace CodexLb.Public
open Json StreamState

variable {e : Object}

theorem orderly_held (he : isHeld e = true) (held es : List Object) {terminal : Option Object} :
    Orderly held (e::es) terminal ↔ Orderly (held++[e]) es terminal := by
  unfold Orderly
  rw [List.takeWhile_cons_of_pos he,List.dropWhile_cons_of_pos he,List.append_assoc,
    List.singleton_append]

section Waiting
variable {held es : List Object} (hheld : held.length ≤ bufferLimit)
include hheld

theorem orderly_nil (terminal : Option Object) : Orderly held [] terminal ↔
      ∀ t, terminal = some t → carriesResponse t = true → Replays held := by
  unfold Orderly
  rw [List.takeWhile_nil,List.dropWhile_nil,List.append_nil,or_iff_right (Nat.not_lt.mpr hheld)]

theorem orderly_open (he : isHeld e = false) (terminal : Option Object) :
    Orderly held (e::es) terminal ↔ opens e = true ∧ Replays held ∧
      (∀ x ∈ es, typeHashable x = true) ∧ (isCreated e = true ∨ ∀ x ∈ es, isCreated x = false) := by
  unfold Orderly
  rw [List.takeWhile_cons_of_neg (by simp [he]),List.dropWhile_cons_of_neg (by simp [he]),
    List.append_nil,or_iff_right (Nat.not_lt.mpr hheld)]

theorem orderly_full (he : isHeld e = true) (hfull : bufferLimit ≤ held.length)
    (terminal : Option Object) : Orderly held (e::es) terminal := by
  left
  rw [List.takeWhile_cons_of_pos he,List.length_append,List.length_cons]
  omega

end Waiting

variable {st st' : StreamState} {p : Object}

section Opened
variable {created : Object} {replayed rest : List Object}

theorem contract_served {es : List Object} (hcreated : isCreated created = true)
    (hreplayed : ∀ e ∈ replayed, Plain e) (hrest : Served es rest) :
    Contract (created::(replayed++rest)) ↔ ∀ e ∈ es, isCreated e = false := by
  obtain ⟨middle,t,rfl,hmiddle,ht,hiff⟩ := hrest
  rw [← List.append_assoc,contract_iff hcreated _ ht,← hiff]
  · constructor
    · exact fun hall e he => hall e (List.mem_append_right _ he)
    · intro hall e he
      rcases List.mem_append.mp he with hold | hnew
      · exact (hreplayed e hold).1
      · exact hall e hnew
  · intro e he
    rcases List.mem_append.mp he with hold | hnew
    · exact (hreplayed e hold).2
    · exact hmiddle e hnew

theorem not_contract_unserved (hcreated : isCreated created = true)
    (hreplayed : ∀ e ∈ replayed, Plain e) (hrest : ∀ e ∈ rest, isTerminal e = false) :
    ¬Contract (created::(replayed++rest)) := by
  apply not_contract_of_open
  intro e he
  rcases List.mem_cons.mp he with rfl | he
  · by_contra h
    rw [not_created_of_terminal (Bool.not_eq_false _ ▸ h)] at hcreated
    cases hcreated
  · rcases List.mem_append.mp he with hold | hnew
    · exact (hreplayed e hold).2
    · exact hrest e hnew

theorem emitCreated_replays (st : StreamState) (h : Replays st.buffer) (created : Object) :
    ∃ replayed st', st.emitCreated created =
        ((created::replayed).map .event,.continue st') ∧
      (∀ e ∈ replayed, Plain e) ∧ st'.createdEmitted = true ∧
      st'.terminalSeen = st.terminalSeen ∧ st'.outputItems = st.outputItems := by
  obtain ⟨r,hr⟩ := Option.isSome_iff_exists.mp
    ((replayBuffer_isSome st.buffer (eventResponseId created) st.seen).mpr h)
  unfold emitCreated
  simp only [hr]
  exact ⟨r.1,_,rfl,replayBuffer_plain hr,rfl,rfl,rfl⟩

theorem emitCreated_raises (st : StreamState) (h : ¬Replays st.buffer) :
    st.emitCreated created = ([.event created],.raise) := by
  rw [← replayBuffer_isSome st.buffer (eventResponseId created) st.seen,Bool.not_eq_true,
    Option.isSome_eq_false_iff,Option.isNone_iff_eq_none] at h
  unfold emitCreated
  simp only [h]

structure Waiting (st : StreamState) : Prop where
  waiting : st.createdEmitted = false
  unfinished : st.terminalSeen = false
  bounded : st.buffer.length ≤ bufferLimit

theorem relayPayload_typed (h : Waiting st) {t : String}
    (he : (normalizePayload (st.backfill p)).1 = some e) (ht : eventType e = some t) :
    st.relayPayload p =
      (st.noteViolation (normalizePayload (st.backfill p)).2).beforeCreated t e := by
  unfold relayPayload
  simp only [he,ht,noteViolation,h.waiting]

theorem relayPayload_untyped (he : (normalizePayload (st.backfill p)).1 = some e)
    (ht : eventType e = none) :
    st.relayPayload p = (st.noteViolation (normalizePayload (st.backfill p)).2).passOn e := by
  unfold relayPayload
  simp only [he,ht]
  split
  · rename_i heq
    cases heq
  · rfl

variable {bs : List Block}

theorem not_contract_stray (he : isCreated e = false) (hrelay : st.relayPayload p = st'.passOn e) :
    ¬Contract (events (streamFrom st (.payload p::bs))) := by
  by_cases hhash : typeHashable e = true
  · obtain ⟨deltas,st'',hpass,hplain,-⟩ := passOn_hashable st' hhash
    simp only [streamFrom,relay,hrelay,hpass,events_append,events_map]
    refine not_contract_of_head (by simp) ?_
    simp only [List.mem_append,List.mem_singleton]
    rintro x (hx | rfl)
    · exact (hplain x hx).1
    · exact he
  · rw [passOn_unhashable _ (by simpa using hhash)] at hrelay
    simp only [streamFrom,relay,hrelay]
    exact not_contract_of_open (by rintro _ ⟨⟩)

theorem contract_opened (hcreated : isCreated created = true) (hplain : ∀ e ∈ replayed, Plain e)
    (hst : Created st')
    (hrelay : st.relayPayload p = ((created::replayed).map .event,.continue st'))
    (hends : EndsTerminal (payloads bs)) :
    Contract (events (streamFrom st (.payload p::bs))) ↔
      (∀ x ∈ publicEvents (payloads bs), typeHashable x = true) ∧
        ∀ x ∈ publicEvents (payloads bs), isCreated x = false := by
  have hout : events (streamFrom st (.payload p::bs)) =
      created::(replayed++events (streamFrom st' bs)) := by
    simp only [streamFrom,relay,hrelay,events_append,events_map,List.cons_append]
  rw [hout]
  rcases hst.outcome hends with ⟨hhash,hserved⟩ | ⟨⟨x,hx,hbad⟩,hrest⟩
  · rw [contract_served hcreated hplain hserved,and_iff_right hhash]
  · refine iff_of_false (not_contract_unserved hcreated hplain hrest) fun h => ?_
    rw [h.1 x hx] at hbad
    cases hbad

theorem not_contract_raised (hcreated : isCreated created = true)
    (hrelay : st.relayPayload p = ([.event created],.raise)) :
    ¬Contract (events (streamFrom st (.payload p::bs))) := by
  have hout : events (streamFrom st (.payload p::bs)) = created::([]++[]) := by
    simp only [streamFrom,relay,hrelay]
    rfl
  rw [hout]
  exact not_contract_unserved hcreated (by simp) (by simp)

end Opened

theorem backfilled (st : StreamState) (hp : isTerminal p = false)
    (he : (normalizePayload p).1 = some e) : (normalizePayload (st.backfill p)).1 = some e := by
  rw [backfill_of_open st hp,he]

section Event
variable {st : StreamState} (h : Waiting st) {p e : Object} {bs : List Block}
  (hp : isTerminal p = false) (he : (normalizePayload p).1 = some e)
  (hends : EndsTerminal (payloads bs))
include h hp he

theorem Waiting.untyped (ht : eventType e = none) (terminal : Option Object) :
    Contract (events (streamFrom st (.payload p::bs))) ↔
      Orderly st.buffer (e::publicEvents (payloads bs)) terminal := by
  have hcreated : isCreated e = false := by simp [isCreated,isType,ht]
  have hheld : isHeld e = false := by simp [isHeld,ht]
  rw [orderly_open h.bounded hheld]
  refine iff_of_false (not_contract_stray hcreated
    (relayPayload_untyped (backfilled st hp he) ht)) ?_
  rintro ⟨hopens,-⟩
  simp [opens,ht] at hopens

include hends

variable {t : String}

theorem Waiting.created (ht : eventType e = some t) (hcreated : t = "response.created")
    (honce : ∀ x ∈ publicEvents (payloads bs), isCreated x = false) (terminal : Option Object) :
    Contract (events (streamFrom st (.payload p::bs))) ↔
      Orderly st.buffer (e::publicEvents (payloads bs)) terminal := by
  subst hcreated
  have he' : isCreated e = true := isType_iff.mpr ⟨_,by decide,ht⟩
  have hheld : isHeld e = false := by
    rw [isHeld,ht]
    rfl
  have hopens : opens e = true := by simp [opens,ht,he']
  have hrelay := relayPayload_typed h (backfilled st hp he) ht
  rw [beforeCreated,if_pos rfl] at hrelay
  rw [orderly_open h.bounded hheld]
  by_cases hreplay : Replays st.buffer
  · obtain ⟨replayed,st',hemit,hplain,hst,hseen,-⟩ := emitCreated_replays
      (st.noteViolation (normalizePayload (st.backfill p)).2) hreplay e
    rw [hemit] at hrelay
    rw [contract_opened he' hplain ⟨hst,hseen.trans h.unfinished⟩ hrelay hends]
    simp only [hopens,hreplay,he',true_and,true_or,and_true]
    exact ⟨And.left,fun hhash => ⟨hhash,honce⟩⟩
  · rw [emitCreated_raises (st.noteViolation (normalizePayload (st.backfill p)).2) hreplay]
      at hrelay
    exact iff_of_false (not_contract_raised he' hrelay) fun ho => hreplay ho.2.1

theorem Waiting.synthetic (ht : eventType e = some t) (hnot : t ≠ "response.created")
    {created : Object} (hsynthetic : syntheticCreated e = some created) (terminal : Option Object) :
    Contract (events (streamFrom st (.payload p::bs))) ↔
      Orderly st.buffer (e::publicEvents (payloads bs)) terminal := by
  have hcreated := syntheticCreated_created hsynthetic
  have hterminal : isTerminal e = false := (isType_congr (normalizePayload_type he hp) _).trans hp
  have he' : isCreated e = false := isType_false_of_type ht (by simpa using hnot)
  have hresponse : (e.obj? "response").isSome = true := by
    rw [← syntheticCreated_isSome,hsynthetic]
    rfl
  have hheld : isHeld e = false := by
    rw [isHeld,Option.isNone_eq_false_iff.mpr hresponse,Bool.and_false]
  have hopens : opens e = true := by simp [opens,ht,hresponse]
  have hrelay := relayPayload_typed h (backfilled st hp he) ht
  rw [beforeCreated,if_neg hnot,hsynthetic] at hrelay
  rw [orderly_open h.bounded hheld]
  by_cases hreplay : Replays st.buffer
  · obtain ⟨replayed,st',hemit,hplain,hst,hseen,-⟩ := emitCreated_replays
      (st.noteViolation (normalizePayload (st.backfill p)).2) hreplay created
    obtain ⟨deltas,st'',hpass,hdeltas,hst',hseen',-⟩ := passOn_hashable st'
      (typeHashable_of_eventType ht)
    simp only [hemit,hpass,← List.map_append] at hrelay
    have hall : ∀ x ∈ replayed++(deltas++[e]), Plain x := by
      simp only [List.mem_append,List.mem_singleton]
      rintro x (hx | hx | rfl)
      · exact hplain x hx
      · exact hdeltas x hx
      · exact ⟨he',hterminal⟩
    have hunfinished : st''.terminalSeen = false := by
      rw [hseen',hterminal,Bool.or_false]
      exact hseen.trans h.unfinished
    rw [contract_opened hcreated hall ⟨hst'.trans hst,hunfinished⟩ hrelay hends]
    simp only [hopens,hreplay,he',Bool.false_eq_true,true_and,false_or]
  · simp only [emitCreated_raises
      (st.noteViolation (normalizePayload (st.backfill p)).2) hreplay] at hrelay
    exact iff_of_false (not_contract_raised hcreated hrelay) fun ho => hreplay ho.2.1

omit hends

section
variable (ht : eventType e = some t) (hnot : t ≠ "response.created")
  (hsynthetic : syntheticCreated e = none)
include ht hnot hsynthetic

theorem Waiting.stray (hbuffer : shouldBuffer t = false) (terminal : Option Object) :
    Contract (events (streamFrom st (.payload p::bs))) ↔
      Orderly st.buffer (e::publicEvents (payloads bs)) terminal := by
  have hterminal : isTerminal e = false := (isType_congr (normalizePayload_type he hp) _).trans hp
  have he' : isCreated e = false := isType_false_of_type ht (by simpa using hnot)
  have hresponse : (e.obj? "response").isSome = false := by
    rw [← syntheticCreated_isSome,hsynthetic]
    rfl
  have hheld : isHeld e = false := by
    rw [isHeld,ht,Option.any_some,hbuffer,Bool.false_and]
  have hrelay := relayPayload_typed h (backfilled st hp he) ht
  rw [beforeCreated,if_neg hnot,hsynthetic] at hrelay
  simp only [hbuffer,hterminal,Bool.false_eq_true,if_false] at hrelay
  rw [orderly_open h.bounded hheld]
  refine iff_of_false (not_contract_stray he' hrelay) ?_
  rintro ⟨hopens,-⟩
  simp [opens,he',hresponse] at hopens

theorem Waiting.full (hbuffer : shouldBuffer t = true) (hfull : bufferLimit ≤ st.buffer.length) :
    Contract (events (streamFrom st (.payload p::bs))) := by
  have hrelay := relayPayload_typed h (backfilled st hp he) ht
  rw [beforeCreated,if_neg hnot,hsynthetic] at hrelay
  have hfull' : bufferLimit ≤
    (st.noteViolation (normalizePayload (st.backfill p)).2).buffer.length := hfull
  simp only [hbuffer,if_true,hfull'] at hrelay
  simp only [streamFrom,relay,hrelay,events_map]
  exact failedBlocks_contract rfl rfl

theorem Waiting.hold (hbuffer : shouldBuffer t = true) (hroom : st.buffer.length < bufferLimit)
    (bs : List Block) :
    ∃ st', Waiting st' ∧ st'.buffer = st.buffer++[e] ∧
      events (streamFrom st (.payload p::bs)) = events (streamFrom st' bs) := by
  have hrelay := relayPayload_typed h (backfilled st hp he) ht
  rw [beforeCreated,if_neg hnot,hsynthetic] at hrelay
  have hroom' : ¬bufferLimit ≤
    (st.noteViolation (normalizePayload (st.backfill p)).2).buffer.length := Nat.not_le.mpr hroom
  simp only [hbuffer,if_true,hroom',if_false] at hrelay
  refine ⟨{st.noteViolation (normalizePayload (st.backfill p)).2 with buffer := st.buffer++[e]},
    ⟨h.waiting,h.unfinished,?_⟩,rfl,?_⟩
  · simp only [List.length_append,List.length_singleton]
    exact hroom
  · simp only [streamFrom,relay,hrelay,List.nil_append]
    rfl

end

end Event

theorem carriesResponse_backfill : carriesResponse (st.backfill p) = carriesResponse p := by
  by_cases hfinished : isFinished p = true
  · have hback : isFinished (st.backfill p) = true :=
      (isType_congr (backfill_type st p) _).trans hfinished
    unfold carriesResponse
    rw [normalizePayload_finished hback,normalizePayload_finished hfinished]
    exact (normalizeFinished_spec hback).2.trans (normalizeFinished_spec hfinished).2.symm
  · have hsame : st.backfill p = p := by
      unfold backfill
      rw [if_neg hfinished]
    rw [hsame]

theorem Waiting.terminal (h : Waiting st) {bs : List Block} (hp : isTerminal p = true)
    (hends : EndsTerminal (p::payloads bs)) :
    Contract (events (streamFrom st (.payload p::bs))) ↔
      (carriesResponse p = true → Replays st.buffer) := by
  have hback : isTerminal (st.backfill p) = true := (isType_congr (backfill_type st p) _).trans hp
  obtain ⟨e,he,hterminal⟩ := normalizePayload_terminal hback
  obtain ⟨t,htypes,ht⟩ := isType_iff.mp hterminal
  have hnot : t ≠ "response.created" := by
    rintro rfl
    exact absurd htypes (by decide)
  have hbuffer : shouldBuffer t = false := by
    rw [shouldBuffer,Bool.and_eq_false_iff]
    exact .inr (decide_eq_false (not_not.mpr htypes))
  have hcarries : carriesResponse p = (syntheticCreated e).isSome := by
    rw [← carriesResponse_backfill,carriesResponse,he,Option.bind_some,syntheticCreated_isSome]
  have hrelay := relayPayload_typed h he ht
  rw [beforeCreated,if_neg hnot] at hrelay
  cases hsynthetic : syntheticCreated e with
  | none =>
    rw [hsynthetic] at hcarries hrelay
    simp only [hbuffer,Bool.false_eq_true,if_false,hterminal,if_true] at hrelay
    refine iff_of_true ?_ (by simp [hcarries])
    simp only [streamFrom,relay,hrelay,events_map]
    split_ifs
    · exact failedBlocks_contract rfl rfl
    · exact failedBlocks_contract rfl rfl
  | some created =>
    have hcreated := syntheticCreated_created hsynthetic
    rw [hsynthetic] at hcarries hrelay
    rw [hcarries]
    simp only [Option.isSome_some,true_implies]
    by_cases hreplay : Replays st.buffer
    · obtain ⟨replayed,st',hemit,hplain,hst,hseen,-⟩ := emitCreated_replays
        (st.noteViolation (normalizePayload (st.backfill p)).2) hreplay created
      obtain ⟨deltas,st'',hpass,hdeltas,-,hseen',-⟩ := passOn_hashable st'
        (typeHashable_of_eventType ht)
      simp only [hemit,hpass] at hrelay
      have hrest : events (streamFrom st'' bs) = [] :=
        events_after_terminal (by rw [hseen',hterminal,Bool.or_true]) (hends.nil_of_terminal hp)
      have hout : events (streamFrom st (.payload p::bs)) =
          created::(replayed++(deltas++[e])) := by
        simp only [streamFrom,relay,hrelay,events_append,events_map,hrest,
          List.append_nil,List.cons_append]
      have hserved : Served [] (deltas++[e]) := by
        refine ⟨deltas,e,rfl,fun d hd => (hdeltas d hd).2,hterminal,?_⟩
        exact iff_of_true (fun d hd => (hdeltas d hd).1) (by simp)
      rw [hout,contract_served hcreated hplain hserved]
      exact iff_of_true (by simp) hreplay
    · simp only [emitCreated_raises
        (st.noteViolation (normalizePayload (st.backfill p)).2) hreplay] at hrelay
      exact iff_of_false (not_contract_raised hcreated hrelay) hreplay

variable {blocks : List Block}

theorem Waiting.contract (h : Waiting st) (hends : EndsTerminal (payloads blocks))
    (honce : (publicEvents (payloads blocks)).countP isCreated ≤ 1) :
    Contract (events (streamFrom st blocks)) ↔
      Orderly st.buffer (publicEvents (payloads blocks)) ((payloads blocks).find? isTerminal) := by
  induction blocks generalizing st with
  | nil =>
    have hout : events (streamFrom st []) = violationBlocks st.errorKind true := by
      simp only [streamFrom,finish,h.unfinished,h.waiting,Bool.false_eq_true,if_false,
        events_map,Bool.not_false]
    rw [hout]
    refine iff_of_true (failedBlocks_contract rfl rfl) ((orderly_nil h.bounded _).mpr ?_)
    rintro _ ⟨⟩
  | cons b bs ih =>
    rcases payload_or_noise b with ⟨p,rfl⟩ | hb
    · have hends' : EndsTerminal (p::payloads bs) := hends
      have hpayloads : payloads (.payload p::bs) = p::payloads bs := rfl
      rw [hpayloads] at honce ⊢
      by_cases hp : isTerminal p = true
      · rw [hends'.nil_of_terminal hp,publicEvents_terminal hp,orderly_nil h.bounded,
          h.terminal hp hends',List.find?_cons_of_pos hp]
        simp only [Option.some.injEq,forall_eq']
      · have hp' : isTerminal p = false := by simpa using hp
        rw [publicEvents_cons hp'] at honce ⊢
        rw [List.find?_cons_of_neg hp]
        cases he : (normalizePayload p).1 with
        | none =>
          rw [he] at honce
          have hrelay := relayPayload_dropped st (p := p)
            (by rw [backfill_of_open st hp',he])
          simp only [streamFrom,relay,hrelay,List.nil_append,Option.toList_none]
          exact ih ⟨h.waiting,h.unfinished,h.bounded⟩ hends'.tail honce
        | some e =>
          rw [he] at honce
          simp only [Option.toList_some,List.singleton_append] at honce ⊢
          cases ht : eventType e with
          | none => exact h.untyped hp' he ht _
          | some t =>
            by_cases hcreated : t = "response.created"
            · refine h.created hp' he hends'.tail ht hcreated ?_ _
              have he' : isCreated e = true := isType_iff.mpr ⟨t,by simp [hcreated],ht⟩
              rw [List.countP_cons_of_pos he'] at honce
              have hzero : (publicEvents (payloads bs)).countP isCreated = 0 := by omega
              simpa [List.countP_eq_zero] using hzero
            · cases hsynthetic : syntheticCreated e with
              | some created =>
                exact h.synthetic hp' he hends'.tail ht hcreated hsynthetic _
              | none =>
                by_cases hbuffer : shouldBuffer t = true
                · have hresponse : e.obj? "response" = none := by
                    simpa [hsynthetic] using (syntheticCreated_isSome e).symm
                  have hheld : isHeld e = true := by
                    rw [isHeld,ht,Option.any_some,hbuffer,hresponse]
                    rfl
                  by_cases hfull : bufferLimit ≤ st.buffer.length
                  · exact iff_of_true
                      (h.full hp' he ht hcreated hsynthetic hbuffer hfull)
                      (orderly_full h.bounded hheld hfull _)
                  · obtain ⟨st',hst,hst',hout⟩ := h.hold hp' he ht hcreated
                      hsynthetic hbuffer (Nat.not_le.mp hfull) bs
                    rw [hout,orderly_held hheld,← hst']
                    refine ih hst hends'.tail ?_
                    exact ((List.sublist_cons_self _ _).countP_le).trans honce
                · exact h.stray hp' he ht hcreated hsynthetic (by simpa using hbuffer) _
    · rw [payloads_noise hb] at hends honce ⊢
      obtain ⟨st',hout,hcreated,hseen,hbuffer,-⟩ := relay_noise hb st bs
      rw [hout,← hbuffer]
      exact ih ⟨hcreated.trans h.waiting,hseen.trans h.unfinished,hbuffer ▸ h.bounded⟩ hends honce

theorem publicEvents_created {ps : List Object} :
    (publicEvents ps).countP isCreated ≤ ps.countP isCreated := by
  induction ps with
  | nil => exact le_refl 0
  | cons p ps ih =>
    by_cases hp : isTerminal p = true
    · have hdrop : publicEvents (p::ps) = publicEvents ps := by simp [publicEvents,hp]
      rw [hdrop]
      exact ih.trans (List.sublist_cons_self _ _).countP_le
    · have hp' : isTerminal p = false := by simpa using hp
      rw [publicEvents_cons hp',List.countP_append,List.countP_cons]
      cases he : (normalizePayload p).1 with
      | none =>
        simp only [Option.toList_none,List.countP_nil]
        omega
      | some e =>
        have hsame : isCreated e = isCreated p :=
          isType_congr (normalizePayload_type he hp') _
        simp only [Option.toList_some,List.countP_singleton,hsame]
        omega

theorem passOn_buffer (h : (st.passOn e).2 = .continue st') : st'.buffer = st.buffer := by
  unfold passOn at h
  split at h
  · cases h
  · cases h
    rfl

theorem emitCreated_buffer (h : (st.emitCreated created).2 = .continue st') : st'.buffer = [] := by
  unfold emitCreated at h
  split at h
  · cases h
  · cases h
    rfl

theorem beforeCreated_bounded {t : String} (h : (st.beforeCreated t e).2 = .continue st')
    (hst : st.buffer.length ≤ bufferLimit) : st'.buffer.length ≤ bufferLimit := by
  unfold beforeCreated at h
  by_cases hcreated : t = "response.created"
  · rw [if_pos hcreated] at h
    rw [emitCreated_buffer h]
    exact Nat.zero_le _
  · rw [if_neg hcreated] at h
    cases hsynthetic : syntheticCreated e with
    | some created =>
      simp only [hsynthetic] at h
      cases hemit : st.emitCreated created with
      | mk out next =>
        cases next with
        | «continue» st₁ =>
          simp only [hemit] at h
          rw [passOn_buffer h,emitCreated_buffer (by rw [hemit])]
          exact Nat.zero_le _
        | stop | raise =>
          simp only [hemit] at h
          cases h
    | none =>
      simp only [hsynthetic] at h
      split_ifs at h with hbuffer hfull hterminal
      · cases h
        simp only [List.length_append,List.length_singleton]
        omega
      · rw [passOn_buffer h]
        exact hst

theorem relay_bounded {b : Block} (h : (st.relay b).2 = .continue st')
    (hst : st.buffer.length ≤ bufferLimit) : st'.buffer.length ≤ bufferLimit := by
  cases b with
  | payload p =>
    simp only [relay,relayPayload] at h
    split at h
    · cases h
      exact hst
    · split at h
      · exact beforeCreated_bounded h hst
      · rw [passOn_buffer h]
        exact hst
  | _ =>
    cases h
    exact hst

/-- At any time at most 64 events are held back. -/
theorem stateAfter_bounded (h : stateAfter st blocks = some st')
    (hst : st.buffer.length ≤ bufferLimit) : st'.buffer.length ≤ bufferLimit := by
  induction blocks generalizing st with
  | nil =>
    cases h
    exact hst
  | cons b bs ih =>
    unfold stateAfter at h
    split at h
    · rename_i st₁ hrelay
      exact ih h (relay_bounded hrelay hst)
    · cases h

/-- The stream keeps its contract iff the upstream events come in an order it can
serve. -/
theorem publicStream_contract_iff (blocks : List Block)
    (hcreated : (payloads blocks).countP isCreated ≤ 1) (hends : EndsTerminal (payloads blocks)) :
    (Contract (events (publicStream blocks)) ∧
      ∀ before after st, blocks = before++after → stateAfter .start before = some st →
        st.buffer.length ≤ 64) ↔
      Orderly [] (publicEvents (payloads blocks)) ((payloads blocks).find? isTerminal) := by
  have hstart : Waiting .start := ⟨rfl,rfl,Nat.zero_le _⟩
  have hiff := hstart.contract hends ((publicEvents_created).trans hcreated)
  constructor
  · exact fun h => hiff.mp h.1
  · refine fun h => ⟨hiff.mpr h,?_⟩
    intro before after st _ hst
    exact stateAfter_bounded hst (Nat.zero_le _)

def bareEvent (type : String) : Object := ⟨[("type",.str type)]⟩

def responseEvent (type : String) : Object :=
  ⟨[("type",.str type),("response",.obj [("id",.str "resp_1"),("output",.arr [])])]⟩

/-- A delta comes before the response is created. -/
theorem publicStream_contract_early :
    (Contract (events (publicStream ([bareEvent "response.output_text.delta",
        responseEvent "response.created",responseEvent "response.completed"].map .payload))) ∧
      ∀ before after st, [bareEvent "response.output_text.delta",responseEvent "response.created",
          responseEvent "response.completed"].map .payload = before++after →
        stateAfter .start before = some st → st.buffer.length ≤ 64) ∧
      Orderly [] (publicEvents (payloads ([bareEvent "response.output_text.delta",
          responseEvent "response.created",responseEvent "response.completed"].map .payload)))
        ((payloads ([bareEvent "response.output_text.delta",responseEvent "response.created",
          responseEvent "response.completed"].map .payload)).find? isTerminal) := by
  have hiff := publicStream_contract_iff ([bareEvent "response.output_text.delta",
    responseEvent "response.created",responseEvent "response.completed"].map .payload)
    (by decide +kernel) (by unfold EndsTerminal; decide +kernel)
  have hcontract : Contract (events (publicStream ([bareEvent "response.output_text.delta",
      responseEvent "response.created",responseEvent "response.completed"].map .payload))) := by
    decide +kernel
  have hboth := And.intro hcontract fun before after st
    (_ : [bareEvent "response.output_text.delta",responseEvent "response.created",
      responseEvent "response.completed"].map Block.payload = before++after)
    (hst : stateAfter .start before = some st) => stateAfter_bounded hst (Nat.zero_le _)
  exact ⟨hboth,hiff.mp hboth⟩

/-- A `ping` before the created event comes first in the client's stream. -/
theorem publicStream_ping_first : (payloads ([bareEvent "ping",responseEvent "response.created",
        responseEvent "response.completed"].map .payload)).countP isCreated ≤ 1 ∧
      EndsTerminal (payloads ([bareEvent "ping",responseEvent "response.created",
        responseEvent "response.completed"].map .payload)) ∧
      ((events (publicStream ([bareEvent "ping",responseEvent "response.created",
        responseEvent "response.completed"].map .payload))).map eventType =
          [some "ping",some "response.created",some "response.completed"]) ∧
      ¬Contract (events (publicStream ([bareEvent "ping",responseEvent "response.created",
        responseEvent "response.completed"].map .payload))) := by
  refine ⟨by decide +kernel,by unfold EndsTerminal; decide +kernel,by decide +kernel,
    by decide +kernel⟩

end CodexLb.Public
