import CodexLb.PublicShown

/-!
# The output of streamed and collected responses

The collector drops the last item of a place if it cannot be shown, the stream
then still has an earlier one. For a response without an output of its own the
two show the same items unless an item that can be shown is followed, at its
place, by a last one that cannot.
-/
namespace CodexLb.Public
open Json Dict

def shownOutput (e : Object) : Option (Option Json) := (e.obj? "response").map (·.get? "output")

variable {p response : Object}

theorem backfill_response {st : StreamState} (hp : isFinished p = true)
    (hresponse : p.obj? "response" = some response) :
    (st.backfill p).obj? "response" = some (mergeOutputItems response st.outputItems) := by
  unfold StreamState.backfill
  rw [if_pos hp,hresponse]
  simp only
  split_ifs with h
  · rw [Object.obj?,Object.get?_set,if_pos rfl]
    rfl
  · rw [hresponse,mergeOutputItems,if_pos]
    simp only [Bool.and_eq_true,Bool.not_eq_true',not_and_or,Bool.not_eq_false] at h
    rw [Bool.or_eq_true]
    exact h.symm

theorem mergeOutputItems_empty : mergeOutputItems response empty = response := rfl

variable {merged : Object}

theorem normalizeFinished_shown (hmerged : p.obj? "response" = some merged) :
    shownOutput (normalizeFinished p).1 =
      some ((normalizeMerged merged).1.bind (·.get? "output")) := by
  unfold normalizeFinished
  rw [hmerged]
  simp only [normalizeResponse,mergeOutputItems_empty]
  cases hnormal : normalizeMerged merged with
  | mk normalized kind =>
    cases normalized with
    | none => rfl
    | some n =>
      simp only [shownOutput,Option.bind_some]
      rw [Object.obj?,Object.get?_set,if_pos rfl]
      rfl

theorem normalizeMerged_output {n : Object} (h : (normalizeMerged merged).1 = some n) :
    n.get? "output" = (merged.arr? "output").elim (merged.get? "output") fun output =>
      some (.arr ((normalizeOutput output).map Object.toJson)) := by
  unfold normalizeMerged at h
  cases houtput : merged.arr? "output" with
  | none =>
    rw [houtput] at h
    cases h
    rfl
  | some output =>
    rw [houtput] at h
    simp only at h
    by_cases hempty : (!output.isEmpty && (normalizeOutput output).isEmpty) = true
    · rw [if_pos hempty] at h
      cases h
    · rw [if_neg hempty] at h
      cases h
      rw [Object.get?_set,if_pos rfl]
      rfl

theorem normalizeMerged_isSome {output : List Json} (h : merged.arr? "output" = some output) :
    (normalizeMerged merged).1.isSome = true ↔ output = [] ∨ normalizeOutput output ≠ [] := by
  unfold normalizeMerged
  rw [h]
  simp only
  by_cases hempty : (!output.isEmpty && (normalizeOutput output).isEmpty) = true
  · rw [if_pos hempty]
    simp only [Bool.and_eq_true,Bool.not_eq_true',List.isEmpty_eq_false_iff,List.isEmpty_iff] at hempty
    simp [hempty.1,hempty.2]
  · rw [if_neg hempty]
    simp only [Bool.and_eq_true,Bool.not_eq_true',List.isEmpty_eq_false_iff,List.isEmpty_iff,
      not_and_or,not_not] at hempty
    simpa using hempty

variable {items : OutputItems}

theorem merge_output (hown : ownOutput response = false) (hitems : items.rows ≠ []) :
    (mergeOutputItems response items).arr? "output" =
      some (items.sortedRows.map fun q => q.2.toJson) := by
  rw [mergeOutputItems,if_neg (by simp [hown,hitems]),Object.arr?,Object.get?_set,if_pos rfl]
  rfl

theorem normalizeOutput_sorted : normalizeOutput (items.sortedRows.map fun q => q.2.toJson) =
      items.sortedRows.filterMap fun q => normalizeOutputItem q.2 := by
  rw [normalizeOutput,List.filterMap_map]
  rfl

theorem toJson_injective : Function.Injective Object.toJson := by
  intro a b h
  cases a
  cases h
  rfl

section Items
variable (rows : List (ℤ × Object))

def rawItems : OutputItems := setAll empty rows

def shownItems : OutputItems := setAll empty (passing normalizeOutputItem rows)

theorem shownItems_of_raw {k : ℤ} {v w : Object} (hv : (rawItems rows).get? k = some v)
    (hw : normalizeOutputItem v = some w) : (shownItems rows).get? k = some w := by
  rw [rawItems,get?_setAll_empty] at hv
  rw [shownItems,get?_setAll_empty]
  exact lastValue_passing hv hw

theorem shownItems_fixed : (shownItems rows).sortedRows.filterMap (fun q => normalizeOutputItem q.2) =
    (shownItems rows).sortedRows.map Prod.snd := by
  rw [← List.filterMap_eq_map]
  apply List.filterMap_congr
  rintro ⟨k,w⟩ hkw
  have hw := mem_sortedRows.mp hkw
  rw [shownItems,get?_setAll_empty] at hw
  obtain ⟨v,_,hv⟩ := mem_passing.mp (lastValue_mem hw)
  exact normalizeOutputItem_idem hv

theorem items_agree_iff : (rawItems rows).sortedRows.filterMap (fun q => normalizeOutputItem q.2) =
        (shownItems rows).sortedRows.map Prod.snd ↔
      Dict.Kept normalizeOutputItem rows := by
  rw [filterMap_sortedRows fun k v w => shownItems_of_raw rows,kept_iff]
  simp only [shownItems,rawItems,get?_setAll_empty]

end Items

variable {rows : List (ℤ × Object)}

theorem rawItems_nil (h : (rawItems rows).rows = []) : rows = [] := by
  by_contra hne
  obtain ⟨q,hq⟩ := List.exists_mem_of_ne_nil rows hne
  obtain ⟨v,hv⟩ := lastValue_of_mem hq
  rw [← get?_setAll_empty,get?_eq_some] at hv
  rw [rawItems] at h
  rw [h] at hv
  cases hv

variable {r : Object}

/-- Where the collector has a response, the two have the same output iff the
response has one of its own or no item was lost. -/
theorem output_agrees_iff
    (hr : (normalizeMerged (mergeOutputItems response (rawItems rows))).1 = some r) :
    (normalizeMerged (mergeOutputItems response (shownItems rows))).1.bind (·.get? "output") =
        r.get? "output" ↔
      ownOutput response = true ∨ Dict.Kept normalizeOutputItem rows := by
  by_cases hown : ownOutput response = true
  · have hsame : ∀ items, mergeOutputItems response items = response := fun items => by
      rw [mergeOutputItems,if_pos (by rw [hown,Bool.or_true])]
    rw [hsame] at hr ⊢
    rw [hr]
    exact iff_of_true rfl (.inl hown)
  · have hown' : ownOutput response = false := by simpa using hown
    by_cases hraw : (rawItems rows).rows = []
    · have hrows := rawItems_nil hraw
      subst hrows
      have hkept : Dict.Kept normalizeOutputItem ([] : List (ℤ × Object)) := by
        exact nofun
      have hsame : shownItems [] = rawItems [] := rfl
      rw [hsame,hr]
      exact iff_of_true rfl (.inr hkept)
    · have houtput := merge_output hown' hraw
      have hsome := (normalizeMerged_isSome houtput).mp (by rw [hr]; rfl)
      have hne : (rawItems rows).sortedRows.filterMap (fun q => normalizeOutputItem q.2) ≠ [] := by
        rw [normalizeOutput_sorted] at hsome
        refine hsome.resolve_left ?_
        intro hnil
        exact hraw (sortedRows_eq_nil (List.map_eq_nil_iff.mp hnil))
      have hshown : (shownItems rows).rows ≠ [] := by
        intro hnil
        obtain ⟨w,hw⟩ := List.exists_mem_of_ne_nil _ hne
        obtain ⟨⟨k,v⟩,hkv,hvw⟩ := List.mem_filterMap.mp hw
        have hget := shownItems_of_raw rows (mem_sortedRows.mp hkv) hvw
        rw [get?_eq_some,hnil] at hget
        cases hget
      have houtput' := merge_output hown' hshown
      have hvalues : normalizeOutput ((shownItems rows).sortedRows.map fun q => q.2.toJson) =
          (shownItems rows).sortedRows.map Prod.snd := by
        rw [normalizeOutput_sorted,shownItems_fixed]
      have hsome' : (normalizeMerged (mergeOutputItems response (shownItems rows))).1.isSome = true := by
        rw [normalizeMerged_isSome houtput',hvalues]
        right
        intro hnil
        exact hshown (sortedRows_eq_nil (List.map_eq_nil_iff.mp hnil))
      obtain ⟨n,hn⟩ := Option.isSome_iff_exists.mp hsome'
      rw [hn,Option.bind_some,normalizeMerged_output hn,normalizeMerged_output hr,houtput,houtput']
      simp only [Option.elim_some,Option.some.injEq,Json.arr.injEq,hvalues,normalizeOutput_sorted]
      rw [List.map_inj_right fun a b hab => toJson_injective hab,eq_comm,
        items_agree_iff,or_iff_right hown]

theorem rows_of_finished (h : isFinished p = true) : p.rows.isEmpty = false := by
  by_contra hempty
  have hp : p = ⟨[]⟩ := by
    rw [Bool.not_eq_false,List.isEmpty_iff] at hempty
    exact congrArg Object.mk hempty
  rw [hp] at h
  cases h

theorem not_item_of_type {t : String} (h : eventType p = some t)
    (ht : t ∉ ["response.output_item.added","response.output_item.done"]) : itemRow p = none := by
  rw [itemRow,if_neg]
  rw [isItemEvent,isType_false_of_type h ht]
  simp

theorem itemRow_created (h : isCreated p = true) : itemRow p = none := by
  obtain ⟨t,ht,he⟩ := isType_iff.mp h
  rw [List.mem_singleton.mp ht] at he
  exact not_item_of_type he (by decide)

theorem itemRow_finished (h : isFinished p = true) : itemRow p = none := by
  obtain ⟨t,ht,he⟩ := isType_iff.mp h
  simp only [List.mem_cons,List.not_mem_nil,or_false] at ht
  rcases ht with rfl | rfl
  · exact not_item_of_type he (by decide)
  · exact not_item_of_type he (by decide)

theorem open_of_created (h : isCreated p = true) : isTerminal p = false := by
  by_contra hterminal
  rw [not_created_of_terminal (Bool.not_eq_false _ ▸ hterminal)] at h
  cases h

theorem terminal_of_finished (h : isFinished p = true) : isTerminal p = true := by
  by_contra hopen
  rw [not_finished (by simpa using hopen)] at h
  cases h

variable {st : CollectState}

theorem finishWith_response (hresponse : p.obj? "response" = some response)
    (h : (st.finishWith p).result = .response r) :
    (normalizeMerged (mergeOutputItems response st.outputItems)).1 = some r := by
  unfold CollectState.finishWith at h
  rw [hresponse] at h
  simp only [normalizeResponse] at h
  cases hnormal : (normalizeMerged (mergeOutputItems response st.outputItems)).1 with
  | none =>
    rw [hnormal] at h
    cases h
  | some n =>
    rw [hnormal,Option.bind_some] at h
    cases hparse : parseResponse n with
    | none =>
      rw [hparse] at h
      cases h
    | some parsed =>
      rw [hparse] at h
      cases h
      unfold parseResponse at hparse
      simp only [Option.bind_eq_bind,Option.bind_eq_some_iff] at hparse
      obtain ⟨_,_,_,_,heq⟩ := hparse
      exact heq

theorem collect_finished (hnone : st.terminal = none) (hp : isFinished p = true) :
    st.add (.payload p) = st.finishWith p := by
  obtain ⟨t,ht,he⟩ := isType_iff.mp hp
  have hitems : collectOutputItem p st.outputItems = st.outputItems := by
    rw [collectOutputItem_eq,itemRow_finished hp]
    rfl
  have herror : isType p ["error"] = false ∧ isType p ["response.failed"] = false := by
    simp only [List.mem_cons,List.not_mem_nil,or_false] at ht
    rcases ht with rfl | rfl
    · exact ⟨isType_false_of_type he (by decide),isType_false_of_type he (by decide)⟩
    · exact ⟨isType_false_of_type he (by decide),isType_false_of_type he (by decide)⟩
  unfold CollectState.add
  simp only [rows_of_finished hp,Bool.false_eq_true,if_false]
  unfold CollectState.addPayload
  simp only [hitems,hnone,herror.1,herror.2,hp,Option.isSome_none,Bool.false_eq_true,if_false,
    if_true]
  rw [← hnone]

theorem normalizePayload_created (h : isCreated p = true) : (normalizePayload p).1 = some p := by
  obtain ⟨t,ht,he⟩ := isType_iff.mp h
  rw [List.mem_singleton.mp ht] at he
  have hopen := open_of_created h
  have hvendor : isVendorEvent p = false := by
    rw [isVendorEvent,he]
    decide
  have hitem : isItemEvent p = false := isType_false_of_type he (by decide)
  rw [normalizePayload,hvendor,not_error hopen,not_finished hopen,hitem]
  rfl

theorem start_created {first : Object} (hfirst : isCreated first = true) :
    ∃ before st', Created st' ∧ (∀ e ∈ before, isTerminal e = false) ∧
      st'.outputItems = empty ∧ ∀ bs, events (publicStream (.payload first::bs)) =
        before++events (streamFrom st' bs) := by
  have hopen := open_of_created hfirst
  obtain ⟨t,ht,he⟩ := isType_iff.mp hfirst
  rw [List.mem_singleton.mp ht] at he
  have hwaiting : Waiting .start := ⟨rfl,rfl,Nat.zero_le _⟩
  have hrelay := relayPayload_typed hwaiting
    (backfilled .start hopen (normalizePayload_created hfirst)) he
  rw [StreamState.beforeCreated,if_pos rfl] at hrelay
  have hreplay : Replays ([] : List Object) := .inr (by simp)
  obtain ⟨replayed,st',hemit,hplain,hcreated,hseen,hitems⟩ := emitCreated_replays
    (StreamState.start.noteViolation
      (normalizePayload (StreamState.start.backfill first)).2) hreplay first
  rw [hemit] at hrelay
  refine ⟨first::replayed,st',⟨hcreated,hseen⟩,?_,hitems,?_⟩
  · intro e he
    rcases List.mem_cons.mp he with rfl | he
    · exact hopen
    · exact (hplain e he).2
  · intro bs
    simp only [publicStream,streamFrom,StreamState.relay,hrelay,events_append,events_map]

theorem publicEvents_unhashable {ps : List Object} (hp : p ∈ ps) (hhash : typeHashable p = false) :
    p ∈ publicEvents ps := by
  have hnone : eventType p = none := by
    by_contra hsome
    obtain ⟨t,ht⟩ := Option.ne_none_iff_exists'.mp hsome
    rw [typeHashable_of_eventType ht] at hhash
    cases hhash
  have htypes : ∀ types, isType p types = false := fun types => by rw [isType,hnone]; rfl
  have hopen : isTerminal p = false := htypes _
  have hvendor : isVendorEvent p = false := by rw [isVendorEvent,hnone]; rfl
  have hnormal : (normalizePayload p).1 = some p := by
    rw [normalizePayload,hvendor,htypes,isFinished,htypes,isItemEvent,htypes]
    rfl
  rw [publicEvents,List.mem_filterMap]
  exact ⟨p,List.mem_filter.mpr ⟨hp,by simp [hopen]⟩,hnormal⟩

section Both
variable {first last response : Object} {mid : List Block} (hfirst : isCreated first = true)
  (hmid : ∀ p ∈ payloads mid, isTerminal p = false) (hlast : isFinished last = true)
  (hresponse : last.obj? "response" = some response)
include hfirst hmid hlast hresponse

theorem collected_response {r : Object}
    (h : collectResponses (.payload first::(mid++[.payload last])) = .response r) :
    (normalizeMerged (mergeOutputItems response (rawItems (itemRows (payloads mid))))).1 =
      some r := by
  obtain ⟨hnone,hitems⟩ := collect_run (.payload first::mid) .start (by
    intro p hp
    rcases List.mem_cons.mp hp with rfl | hp
    · exact open_of_created hfirst
    · exact hmid p hp) rfl
  have hrows : itemRows (payloads (.payload first::mid)) = itemRows (payloads mid) := by
    have hpayloads : payloads (.payload first::mid) = first::payloads mid := rfl
    rw [hpayloads,itemRows_cons,itemRow_created hfirst]
    rfl
  rw [hrows] at hitems
  rw [collectResponses,← List.cons_append,List.foldl_append,List.foldl_cons,List.foldl_nil,
    collect_finished hnone hlast] at h
  have hresult := finishWith_response hresponse h
  rw [hitems] at hresult
  exact hresult

theorem streamed_output (hhash : ∀ p ∈ payloads mid, typeHashable p = true) :
    ((events (publicStream (.payload first::(mid++[.payload last])))).find? isTerminal).bind
        shownOutput =
      some ((normalizeMerged (mergeOutputItems response
        (shownItems (itemRows (payloads mid))))).1.bind (·.get? "output")) := by
  obtain ⟨opening,st,hst,hopening,hempty,hstart⟩ := start_created hfirst
  obtain ⟨before,st',hst',hbefore,hitems,hrun⟩ := hst.run hmid hhash [.payload last]
  have hends : EndsTerminal (last::payloads []) := by
    exact nofun
  obtain ⟨deltas,e,he,hplain,hterminal,hout⟩ :=
    hst'.terminal hends (terminal_of_finished hlast)
  have hfinished : isFinished (st'.backfill last) = true :=
    (isType_congr (backfill_type st' last) _).trans hlast
  rw [normalizePayload_finished hfinished,Option.some.injEq] at he
  rw [hstart,hrun,hout,List.find?_append,List.find?_append,List.find?_append]
  have hnone : ∀ es : List Object, (∀ e ∈ es, isTerminal e = false) → es.find? isTerminal = none := by
    intro es hes
    rw [List.find?_eq_none]
    intro x hx
    simp [hes x hx]
  rw [hnone opening hopening,hnone before hbefore,hnone deltas fun d hd => (hplain d hd).2,
    List.find?_cons_of_pos hterminal]
  simp only [Option.none_or,Option.bind_some]
  rw [← he,normalizeFinished_shown (backfill_response hlast hresponse),hitems,hempty]
  rfl

end Both

/-- The terminal event of the stream carries the output the collector returns iff
every event has a type that can be looked up and no item was lost. -/
theorem publicStream_output_iff {first last response r : Object} {mid : List Block}
    (hfirst : isCreated first = true) (hmid : ∀ p ∈ payloads mid, isTerminal p = false)
    (hlast : isFinished last = true) (hresponse : last.obj? "response" = some response)
    (hcollect : collectResponses (.payload first::(mid++[.payload last])) = .response r) :
    ((events (publicStream (.payload first::(mid++[.payload last])))).find? isTerminal).bind
        shownOutput = some (r.get? "output") ↔
      (∀ p ∈ payloads mid, typeHashable p = true) ∧
        (ownOutput response = true ∨ Dict.Kept normalizeOutputItem (itemRows (payloads mid))) := by
  by_cases hhash : ∀ p ∈ payloads mid, typeHashable p = true
  · rw [streamed_output hfirst hmid hlast hresponse hhash,Option.some.injEq,
      output_agrees_iff (collected_response hfirst hmid hlast hresponse hcollect),
      and_iff_right hhash]
  · refine iff_of_false ?_ fun h => hhash h.1
    push Not at hhash
    obtain ⟨p,hp,hne⟩ := hhash
    obtain ⟨opening,st,hst,hopening,-,hstart⟩ := start_created hfirst
    have hends : EndsTerminal (payloads (mid++[.payload last])) := by
      have hsplit : payloads (mid++[.payload last]) = payloads mid++[last] :=
        List.filterMap_append
      rw [EndsTerminal,hsplit,List.dropLast_concat]
      exact hmid
    have hmem : p ∈ publicEvents (payloads (mid++[.payload last])) := by
      refine publicEvents_unhashable ?_ (by simpa using hne)
      have hsplit : payloads (mid++[.payload last]) = payloads mid++[last] :=
        List.filterMap_append
      rw [hsplit]
      exact List.mem_append_left _ hp
    have hrest := ((hst.outcome hends).resolve_left fun h => hne (h.1 p hmem)).2
    have hnone : (events (publicStream (.payload first::(mid++[.payload last])))).find? isTerminal =
        none := by
      rw [hstart,List.find?_eq_none]
      intro x hx
      rcases List.mem_append.mp hx with hx | hx
      · simp [hopening x hx]
      · simp [hrest x hx]
    rw [hnone]
    simp

def outputCount (response : Object) : Option ℕ := (response.arr? "output").map List.length

def Collected.outputCount : Collected → Option ℕ
  | .response r => Public.outputCount r
  | .error _ => none

def itemEvent (type itemType : String) (index : ℤ) : Object :=
  ⟨[("type",.str type),("output_index",.int index),("item",.obj [("type",.str itemType)])]⟩

theorem exists_response {c : Collected} {n : ℕ} (h : c.outputCount = some n) :
    ∃ r, c = .response r ∧ outputCount r = some n := by
  cases c with
  | response r => exact ⟨r,rfl,h⟩
  | error e => cases h

/-- One message, streamed and collected. -/
theorem publicStream_output_message :
    ∃ r, collectResponses (.payload (responseEvent "response.created")::
        ([.payload (itemEvent "response.output_item.done" "message" 0)]++
          [.payload (responseEvent "response.completed")])) = .response r ∧
      outputCount r = some 1 ∧
      ((events (publicStream (.payload (responseEvent "response.created")::
        ([.payload (itemEvent "response.output_item.done" "message" 0)]++
          [.payload (responseEvent "response.completed")])))).find? isTerminal).bind shownOutput =
        some (r.get? "output") := by
  obtain ⟨r,hr,hcount⟩ := exists_response (c := collectResponses
    (.payload (responseEvent "response.created")::
      ([.payload (itemEvent "response.output_item.done" "message" 0)]++
        [.payload (responseEvent "response.completed")]))) (n := 1) (by decide +kernel)
  refine ⟨r,hr,hcount,(publicStream_output_iff (by decide +kernel) (by decide +kernel)
    (by decide +kernel) rfl hr).mpr ⟨by decide +kernel,.inr ?_⟩⟩
  unfold Dict.Kept
  decide +kernel

/-- A message that is replaced by an item the surface cannot show: the stream
still shows it, the collector does not. -/
theorem publicStream_output_lost : isCreated (responseEvent "response.created") = true ∧
      (∀ p ∈ [itemEvent "response.output_item.added" "message" 0,
        itemEvent "response.output_item.done" "unknown" 0,
        itemEvent "response.output_item.done" "function_call" 1], isTerminal p = false) ∧
      isFinished (responseEvent "response.completed") = true ∧
      ∃ r, collectResponses (.payload (responseEvent "response.created")::
          ([itemEvent "response.output_item.added" "message" 0,
            itemEvent "response.output_item.done" "unknown" 0,
            itemEvent "response.output_item.done" "function_call" 1].map .payload++
            [.payload (responseEvent "response.completed")])) = .response r ∧
        outputCount r = some 1 ∧
        ((events (publicStream (.payload (responseEvent "response.created")::
          ([itemEvent "response.output_item.added" "message" 0,
            itemEvent "response.output_item.done" "unknown" 0,
            itemEvent "response.output_item.done" "function_call" 1].map .payload++
            [.payload (responseEvent "response.completed")])))).find? isTerminal).bind shownOutput ≠
          some (r.get? "output") := by
  refine ⟨by decide +kernel,by decide +kernel,by decide +kernel,?_⟩
  obtain ⟨r,hr,hcount⟩ := exists_response (c := collectResponses
    (.payload (responseEvent "response.created")::
      ([itemEvent "response.output_item.added" "message" 0,
        itemEvent "response.output_item.done" "unknown" 0,
        itemEvent "response.output_item.done" "function_call" 1].map .payload++
        [.payload (responseEvent "response.completed")]))) (n := 1) (by decide +kernel)
  refine ⟨r,hr,hcount,?_⟩
  intro hshown
  have hcounts := congrArg (fun o => ((o.bind id).bind Json.arr?).map List.length) hshown
  have htwo : ((((events (publicStream (.payload (responseEvent "response.created")::
      ([itemEvent "response.output_item.added" "message" 0,
        itemEvent "response.output_item.done" "unknown" 0,
        itemEvent "response.output_item.done" "function_call" 1].map .payload++
        [.payload (responseEvent "response.completed")])))).find? isTerminal).bind shownOutput
        |>.bind id).bind Json.arr?).map List.length = some 2 := by
    decide +kernel
  have hone : (((some (r.get? "output")).bind id).bind Json.arr?).map List.length = some 1 := hcount
  rw [htwo,hone] at hcounts
  cases hcounts

end CodexLb.Public
