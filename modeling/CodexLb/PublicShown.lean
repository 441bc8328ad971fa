import CodexLb.PublicCollect
import CodexLb.PublicOrder

/-!
# The items both keep

Every item event gives a row: the place and the item. The collector keeps the
last row of every place, the stream the last one whose item can be shown.
-/
namespace CodexLb.Public
open Json

variable {item : Object}

theorem textMessage_type {text : String} :
    (textMessage item text).text? "type" = some "message" := by
  unfold textMessage
  split
  · rw [Object.text?_set_other _ (by decide)]
    rfl
  · rfl

theorem normalizeOutputItem_idem {n : Object} (h : normalizeOutputItem item = some n) :
    normalizeOutputItem n = some n := by
  unfold normalizeOutputItem at h
  split_ifs at h with hpass
  · cases h
    rw [normalizeOutputItem,if_pos hpass]
  · obtain ⟨text,_,rfl⟩ := Option.map_eq_some_iff.mp h
    have hmessage : ((textMessage item text).text? "type").any isPassthroughType = true := by
      rw [textMessage_type]
      decide
    rw [normalizeOutputItem,if_pos hmessage]

def itemRow (p : Object) : Option (ℤ × Object) :=
  if isItemEvent p then
    (p.int? "output_index").bind fun i => (p.obj? "item").map fun item => (i,item)
  else none

def itemRows (ps : List Object) : List (ℤ × Object) := ps.filterMap itemRow

theorem itemRows_cons (p : Object) (ps : List Object) :
    itemRows (p::ps) = (itemRow p).toList++itemRows ps := by
  unfold itemRows
  cases hrow : itemRow p with
  | none | some q => simp [hrow]

theorem collectOutputItem_eq (p : Object) (items : OutputItems) :
    collectOutputItem p items = (itemRow p).elim items fun q => items.set q.1 q.2 := by
  unfold collectOutputItem itemRow
  split_ifs
  · cases p.int? "output_index" with
    | none => rfl
    | some i =>
      cases p.obj? "item" with
      | none | some item => rfl
  · rfl

variable {items : OutputItems} {p : Object}

theorem collect_setAll {rows : List (ℤ × Object)} :
    Dict.setAll (collectOutputItem p items) rows = Dict.setAll items ((itemRow p).toList++rows) := by
  rw [collectOutputItem_eq]
  cases itemRow p with
  | none | some q => rfl

variable {st : CollectState}

theorem collect_add (hp : isTerminal p = false) (hnone : st.terminal = none) :
    (st.add (.payload p)).terminal = none ∧
      (st.add (.payload p)).outputItems = collectOutputItem p st.outputItems := by
  unfold CollectState.add
  by_cases hempty : p.rows.isEmpty = true
  · have hp' : p = ⟨[]⟩ := by
      rw [List.isEmpty_iff] at hempty
      exact congrArg Object.mk hempty
    subst hp'
    exact ⟨hnone,rfl⟩
  · simp only [hempty,Bool.false_eq_true,if_false]
    unfold CollectState.addPayload
    simp only [hnone,not_error hp,not_finished hp,not_failed hp,Option.isSome_none,
      Bool.false_eq_true,if_false]
    exact ⟨trivial,trivial⟩

theorem collect_noise {b : Block} (hb : Noise b) :
    (st.add b).terminal = st.terminal ∧ (st.add b).outputItems = st.outputItems := by
  cases b with
  | payload o => exact absurd rfl (hb o)
  | comment text =>
    unfold CollectState.add
    simp only
    split_ifs
    · exact ⟨rfl,rfl⟩
    · exact ⟨rfl,rfl⟩
  | _ => exact ⟨rfl,rfl⟩

theorem collect_run (blocks : List Block) (st : CollectState)
    (hopen : ∀ p ∈ payloads blocks, isTerminal p = false) (hnone : st.terminal = none) :
    (blocks.foldl CollectState.add st).terminal = none ∧
      (blocks.foldl CollectState.add st).outputItems =
        Dict.setAll st.outputItems (itemRows (payloads blocks)) := by
  induction blocks generalizing st with
  | nil => exact ⟨hnone,rfl⟩
  | cons b bs ih =>
    rcases payload_or_noise b with ⟨p,rfl⟩ | hb
    · have hpayloads : payloads (.payload p::bs) = p::payloads bs := rfl
      rw [hpayloads,List.forall_mem_cons] at hopen
      obtain ⟨hterminal,hitems⟩ := collect_add hopen.1 hnone
      obtain ⟨hrest,hrestItems⟩ := ih _ hopen.2 hterminal
      refine ⟨hrest,?_⟩
      rw [List.foldl_cons,hrestItems,hitems,collect_setAll,hpayloads,itemRows_cons]
    · rw [payloads_noise hb] at hopen ⊢
      obtain ⟨hterminal,hitems⟩ := collect_noise hb
      have hrest := ih _ hopen (hterminal.trans hnone)
      rw [hitems] at hrest
      exact hrest

/-- The rows whose item can be shown. -/
def shownRows (ps : List Object) : List (ℤ × Object) := Dict.passing normalizeOutputItem (itemRows ps)

theorem shownRows_cons {ps : List Object} : shownRows (p::ps) =
      Dict.passing normalizeOutputItem (itemRow p).toList++shownRows ps := by
  rw [shownRows,itemRows_cons,Dict.passing,List.filterMap_append]
  rfl

theorem not_vendor_of_item (h : isItemEvent p = true) : isVendorEvent p = false := by
  obtain ⟨t,ht,he⟩ := isType_iff.mp h
  rw [isVendorEvent,he]
  simp only [List.mem_cons,List.not_mem_nil,or_false] at ht
  rcases ht with rfl | rfl
  · decide
  · decide

theorem normalizePayload_item (hp : isTerminal p = false) (h : isItemEvent p = true) :
    normalizePayload p = normalizeItemEvent p := by
  unfold normalizePayload
  rw [not_vendor_of_item h,not_error hp,not_finished hp,h]
  rfl

/-- What the stream collects from an event that is not dropped. -/
theorem collect_normalized {e : Object} (hp : isTerminal p = false)
    (he : (normalizePayload p).1 = some e) :
    collectOutputItem e items =
      Dict.setAll items (Dict.passing normalizeOutputItem (itemRow p).toList) := by
  have htype := normalizePayload_type he hp
  have hitem : isItemEvent e = isItemEvent p := isType_congr htype _
  by_cases h : isItemEvent p = true
  · rw [normalizePayload_item hp h,normalizeItemEvent] at he
    cases hobj : p.obj? "item" with
    | none =>
      rw [hobj] at he
      cases he
    | some item =>
      rw [hobj] at he
      simp only at he
      cases hn : normalizeOutputItem item with
      | none =>
        rw [hn] at he
        cases he
      | some n =>
        rw [hn] at he
        simp only [Option.some.injEq] at he
        subst he
        have hindex : (p.set "item" n.toJson).int? "output_index" = p.int? "output_index" := by
          rw [Object.int?,Object.get?_set,if_neg (by decide)]
          rfl
        have hobj' : (p.set "item" n.toJson).obj? "item" = some n := by
          rw [Object.obj?,Object.get?_set,if_pos rfl]
          rfl
        rw [collectOutputItem_eq,itemRow,itemRow,hitem,if_pos h,if_pos h,hindex,hobj',hobj]
        cases p.int? "output_index" with
        | none => rfl
        | some i => simp [Dict.passing,hn,Dict.setAll]
  · have hrow : itemRow p = none := by rw [itemRow,if_neg h]
    rw [collectOutputItem_eq,itemRow,hitem,if_neg h,hrow]
    rfl

theorem passing_dropped (hp : isTerminal p = false) (he : (normalizePayload p).1 = none) :
    Dict.passing normalizeOutputItem (itemRow p).toList = [] := by
  by_cases h : isItemEvent p = true
  · rw [normalizePayload_item hp h,normalizeItemEvent] at he
    rw [itemRow,if_pos h]
    cases hobj : p.obj? "item" with
    | none => cases p.int? "output_index" <;> rfl
    | some item =>
      rw [hobj] at he
      simp only at he
      cases hn : normalizeOutputItem item with
      | some n =>
        rw [hn] at he
        cases he
      | none =>
        cases p.int? "output_index" with
        | none => rfl
        | some i => simp [Dict.passing,hn]
  · rw [itemRow,if_neg h]
    rfl

theorem Created.run {mid : List Block} {st : StreamState} (h : Created st)
    (hopen : ∀ p ∈ payloads mid, isTerminal p = false)
    (hhash : ∀ p ∈ payloads mid, typeHashable p = true) (rest : List Block) :
    ∃ before st', Created st' ∧ (∀ e ∈ before, isTerminal e = false) ∧
      st'.outputItems = Dict.setAll st.outputItems (shownRows (payloads mid)) ∧
      events (streamFrom st (mid++rest)) = before++events (streamFrom st' rest) := by
  induction mid generalizing st with
  | nil => exact ⟨[],st,h,by simp,rfl,rfl⟩
  | cons b bs ih =>
    rcases payload_or_noise b with ⟨p,rfl⟩ | hb
    · have hpayloads : payloads (.payload p::bs) = p::payloads bs := rfl
      rw [hpayloads,List.forall_mem_cons] at hopen hhash
      rw [hpayloads,shownRows_cons]
      cases he : (normalizePayload p).1 with
      | none =>
        obtain ⟨st₁,hst₁,hitems,hout⟩ := h.dropped hopen.1 he (bs++rest)
        obtain ⟨before,st',hst',hbefore,hitems',hout'⟩ := ih hst₁ hopen.2 hhash.2
        refine ⟨before,st',hst',hbefore,?_,?_⟩
        · rw [hitems',hitems,passing_dropped hopen.1 he,List.nil_append]
        · rw [List.cons_append,hout,hout']
      | some e =>
        have hhash' : typeHashable e = true := by
          rw [typeHashable,normalizePayload_type he hopen.1]
          exact hhash.1
        obtain ⟨deltas,st₁,hst₁,hplain,hterminal,hitems,hout⟩ :=
          h.passed hopen.1 he hhash' (bs++rest)
        obtain ⟨before,st',hst',hbefore,hitems',hout'⟩ := ih hst₁ hopen.2 hhash.2
        refine ⟨deltas++[e]++before,st',hst',?_,?_,?_⟩
        · simp only [List.mem_append,List.mem_singleton]
          rintro x ((hx | rfl) | hx)
          · exact (hplain x hx).2
          · exact hterminal
          · exact hbefore x hx
        · rw [hitems',hitems,collect_normalized hopen.1 he,Dict.setAll,Dict.setAll,
            ← List.foldl_append]
          rfl
        · rw [List.cons_append,hout,hout',← List.append_assoc]
    · rw [payloads_noise hb] at hopen hhash ⊢
      obtain ⟨st₁,hout,hcreated,hseen,-,hitems⟩ := relay_noise hb st (bs++rest)
      obtain ⟨before,st',hst',hbefore,hitems',hout'⟩ :=
        ih ⟨hcreated.trans h.created,hseen.trans h.unfinished⟩ hopen hhash
      refine ⟨before,st',hst',hbefore,?_,?_⟩
      · rw [hitems',hitems]
      · rw [List.cons_append,hout,hout']

end CodexLb.Public
