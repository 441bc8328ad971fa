import CodexLb.ChatToolCalls

/-!
# The slots of parallel tool calls

Several calls run at the same time and their events arrive interleaved. A call
is known by its place in the output, the id of its item and its own id. The event
that opens it carries all three; a later event has to carry one of them where the
code asks for it.
-/
namespace CodexLb.Chat
open Json ToolCallIndex

def idText : Option Json → Option String
  | some (.str s) => if s = "" then none else some s
  | _ => none

section Fields
variable (p : Object)

def candidateField (key : String) : Option Json := (selectToolCallCandidate p).get? key

def deltaField (key : String) : Option Json :=
  ((selectToolCallCandidate p).obj? "delta").bind fun (d : Object) => d.get? key

def callIdFields : List (Option Json) :=
  [candidateField p "call_id",candidateField p "tool_call_id",candidateField p "id",
    deltaField p "id",deltaField p "call_id",deltaField p "tool_call_id"]

/-- The fields an event may name its call in, in the order they are asked for. -/
def idFields : List (Option Json) :=
  callIdFields p++[p.get? "item_id",(p.obj? "item").bind fun (i : Object) => i.get? "id"]

def nameFields : List (Option Json) :=
  [candidateField p "name",candidateField p "tool_name",deltaField p "name",
    ((candidateField p "function").bind Json.obj?).bind fun (f : Object) => f.get? "name",
    ((deltaField p "function").bind Json.obj?).bind fun (f : Object) => f.get? "name"]

def argumentFields : List (Option Json) :=
  [candidateField p "arguments",candidateField p "delta",deltaField p "arguments",
    ((deltaField p "function").bind Json.obj?).bind fun (f : Object) => f.get? "arguments"]

/-- An event of a tool call that has an id of the call, a name or arguments. -/
def Tells : Prop := isToolCallEvent p = true ∧
  ((∃ v ∈ callIdFields p++nameFields p, idText v ≠ none) ∨
    ∃ v ∈ argumentFields p, v.bind Json.str? ≠ none)

end Fields

structure LogicalCall where
  outputIndex : ℤ
  itemId : String
  callId : String
  item_ne : itemId ≠ ""
  call_ne : callId ≠ ""

/-- No two calls share a place or an id, and no id of an item is the id of a call. -/
structure DistinctCalls {ι : Type*} (calls : ι → LogicalCall) : Prop where
  output : ∀ i j, (calls i).outputIndex = (calls j).outputIndex → i = j
  item : ∀ i j, (calls i).itemId = (calls j).itemId → i = j
  call : ∀ i j, (calls i).callId = (calls j).callId → i = j
  disjoint : ∀ i j, (calls i).itemId ≠ (calls j).callId

namespace LogicalCall
variable (c : LogicalCall) (p : Object)

def Opens : Prop := p.text? "type" = some "response.output_item.added" ∧
  p.int? "output_index" = some c.outputIndex ∧
  ∃ item, p.obj? "item" = some item ∧ item.text? "id" = some c.itemId ∧
    item.text? "call_id" = some c.callId

def Owns (s : String) : Prop := s = c.itemId ∨ s = c.callId

/-- What an event names is its call, and it names it by its place or by an id in
one of the fields that are asked for. -/
structure Names : Prop where
  ids : ∀ v ∈ idFields p, ∀ s, idText v = some s → c.Owns s
  output : ∀ o, p.int? "output_index" = some o → o = c.outputIndex
  named : p.int? "output_index" ≠ none ∨ ∃ v ∈ idFields p, idText v ≠ none

end LogicalCall

section
variable {ι : Type*} [DecidableEq ι]

/-- The calls in the order of their first events, after those that were seen. -/
def firstSeen : List ι → List ι → List ι
  | seen,[] => seen
  | seen,j::js => firstSeen (if j ∈ seen then seen else seen++[j]) js

def Interleaves (calls : ι → LogicalCall) : List ι → List (ι × Object) → Prop
  | _,[] => True
  | seen,e::es => if e.1 ∈ seen then (calls e.1).Names e.2 ∧ Interleaves calls seen es
    else (calls e.1).Opens e.2 ∧ Interleaves calls (seen++[e.1]) es

end

def slotsOf : ToolCallIndex → List Object → List (Option ℕ)
  | _,[] => []
  | t,p::ps =>
    let r := toolCallDeltaFromPayload p t
    r.1.map (·.index)::slotsOf r.2 ps

theorem firstStr_eq (xs : List (Option Json)) : firstStr xs = xs.findSome? idText := by
  induction xs using firstStr.induct with
  | case1 => rfl
  | case2 vs ih => simpa [firstStr,idText] using ih
  | case3 s vs hs => simp [firstStr,idText,hs]
  | case4 v vs hv ih =>
    have hnone : idText v = none := by
      unfold idText
      split
      · exact absurd rfl (hv _)
      · rfl
    simpa [firstStr,hnone] using ih

theorem firstStr_append {xs ys : List (Option Json)} :
    firstStr (xs++ys) = (firstStr xs <|> firstStr ys) := by
  simp only [firstStr_eq,List.findSome?_append,Option.orElse_eq_orElse,Option.orElse_eq_or]

variable {p : Object}

theorem candidateCallId_eq :
    candidateCallId (selectToolCallCandidate p) ((selectToolCallCandidate p).obj? "delta") =
      firstStr (callIdFields p) := by
  have hd : (((selectToolCallCandidate p).obj? "delta").bind fun d =>
      firstStr [d.get? "id",d.get? "call_id",d.get? "tool_call_id"]) =
      firstStr (["id","call_id","tool_call_id"].map (deltaField p)) := by
    unfold deltaField
    cases (selectToolCallCandidate p).obj? "delta" <;> rfl
  rw [candidateCallId,hd,← firstStr_append]
  rfl

theorem candidateName_eq :
    candidateName (selectToolCallCandidate p) ((selectToolCallCandidate p).obj? "delta") =
      firstStr (nameFields p) := by
  have hf (o : Option Object) : firstStr [o.bind fun f => f.get? "name"] =
      o.bind fun f => firstStr [f.get? "name"] := by cases o <;> rfl
  have hd : ((selectToolCallCandidate p).obj? "delta").bind (·.obj? "function") =
      (deltaField p "function").bind Json.obj? := (Option.bind_assoc ..).symm
  rw [candidateName,← hf,← hf,← hf,hd,← firstStr_append,← firstStr_append,← firstStr_append]
  rfl

theorem candidateArguments_eq :
    candidateArguments (selectToolCallCandidate p) ((selectToolCallCandidate p).obj? "delta") =
      (argumentFields p).findSome? fun v => v.bind Json.str? := by
  have hcons (v : Option Json) (vs : List (Option Json)) :
      (v::vs).findSome? (fun v => v.bind Json.str?) =
        (v.bind Json.str?).or (vs.findSome? fun v => v.bind Json.str?) := by
    rw [List.findSome?_cons]
    cases v.bind Json.str? <;> rfl
  unfold argumentFields deltaField candidateArguments
  cases (selectToolCallCandidate p).obj? "delta" <;>
    simp [hcons,candidateField,Object.text?,Object.obj?,Option.bind_assoc]

theorem extractToolCallFields_eq_none : extractToolCallFields p = none ↔
    ¬((∃ v ∈ callIdFields p++nameFields p, idText v ≠ none) ∨
      ∃ v ∈ argumentFields p, v.bind Json.str? ≠ none) := by
  have hnone : extractToolCallFields p = none ↔ firstStr (callIdFields p++nameFields p) = none ∧
      (argumentFields p).findSome? (fun v => v.bind Json.str?) = none := by
    simp only [extractToolCallFields,candidateCallId_eq,candidateName_eq,candidateArguments_eq,
      firstStr_append,ite_eq_left_iff,reduceCtorEq,imp_false,not_not,Option.orElse_eq_orElse,
      Option.orElse_eq_or,Option.or_eq_none_iff,and_assoc]
  rw [hnone,firstStr_eq,List.findSome?_eq_none_iff,List.findSome?_eq_none_iff]
  push Not
  rfl

theorem delta_eq_none {t : ToolCallIndex} : (toolCallDeltaFromPayload p t).1 = none ↔ ¬Tells p := by
  unfold toolCallDeltaFromPayload Tells
  rw [not_and,← extractToolCallFields_eq_none]
  split_ifs with hevent
  · cases extractToolCallFields p <;> simp [hevent]
  · simp [hevent]

theorem slotsOf_eq_none {t : ToolCallIndex} {ps : List Object} {m : ℕ} {o : Option ℕ}
    (hp : ps[m]? = some p) (ho : (slotsOf t ps)[m]? = some o) : o = none ↔ ¬Tells p := by
  induction ps generalizing t m with
  | nil => simp at hp
  | cons q ps ih =>
    cases m with
    | zero =>
      cases hp
      cases ho
      rw [Option.map_eq_none_iff,delta_eq_none]
    | succ m => exact ih hp ho

theorem routingId_eq :
    (candidateCallId (selectToolCallCandidate p) ((selectToolCallCandidate p).obj? "delta") <|>
      firstStr [p.get? "item_id",(p.obj? "item").bind (·.get? "id")]) = firstStr (idFields p) := by
  rw [candidateCallId_eq,← firstStr_append]
  rfl

theorem extractToolCallFields_callId {f : ToolCallFields} (h : extractToolCallFields p = some f) :
    (f.callId <|> firstStr [p.get? "item_id",(p.obj? "item").bind (·.get? "id")]) =
      firstStr (idFields p) := by
  unfold extractToolCallFields at h
  simp only at h
  split_ifs at h
  cases h
  exact routingId_eq

theorem name_ne_id {a b : String} : "name:"++a ≠ "id:"++b := by
  simp [String.ext_iff]

theorem toolCallKey_id {s : String} (h : s ≠ "") {name : Option String} :
    toolCallKey (some s) name = some ("id:"++s) := by
  have hs : (some s).filter (· ≠ "") = some s := by simp [Option.filter,h]
  simp only [toolCallKey,hs]

section
variable {ι : Type*} [DecidableEq ι] {calls : ι → LogicalCall} {seen : List ι} {t : ToolCallIndex}
  {j : ι} {k : ℕ} {p : Object}

structure Follows (calls : ι → LogicalCall) (seen : List ι) (t : ToolCallIndex) : Prop where
  next : t.nextIndex = seen.length
  item : ∀ j, t.indexes.get? ("id:"++(calls j).itemId) = seen.idxOf? j
  call : ∀ j, t.indexes.get? ("id:"++(calls j).callId) = seen.idxOf? j
  output : ∀ j, t.outputIndexMap.get? (calls j).outputIndex = seen.idxOf? j

def ToolCallIndex.admit (t : ToolCallIndex) (c : LogicalCall) (n : ℕ) : ToolCallIndex :=
  ⟨(t.indexes.set ("id:"++c.callId) n).set ("id:"++c.itemId) n,n+1,
    t.outputIndexMap.set c.outputIndex n⟩

section
variable (h : Follows calls seen t)
include h

variable {s : String}

theorem Follows.owned (hk : seen.idxOf? j = some k) (hs : (calls j).Owns s) :
    t.indexes.get? ("id:"++s) = some k := by
  rcases hs with rfl | rfl
  · rw [h.item,hk]
  · rw [h.call,hk]

theorem Follows.setIndex_owned (hk : seen.idxOf? j = some k) (hs : (calls j).Owns s) (i : ℕ) :
    t.setIndex ("id:"++s) i = t := by
  rw [setIndex,h.owned hk hs,Option.isSome_some,if_pos rfl]

theorem Follows.setIndex_name (name : String) (i : ℕ) :
    Follows calls seen (t.setIndex ("name:"++name) i) := by
  unfold setIndex
  split_ifs
  · exact h
  · refine ⟨h.next,fun j => ?_,fun j => ?_,h.output⟩
    · rw [Dict.get?_set,if_neg (name_ne_id).symm,h.item]
    · rw [Dict.get?_set,if_neg (name_ne_id).symm,h.call]

theorem Follows.indexForOutputIndex (hk : seen.idxOf? j = some k) {out : Option ℤ}
    {id : Option String} (ho : ∀ o, out = some o → o = (calls j).outputIndex)
    (hid : ∀ s, id = some s → s ≠ "" ∧ (calls j).Owns s) (hnamed : out ≠ none ∨ id ≠ none)
    (name : Option String) : (t.indexForOutputIndex out id name).1 = k ∧
      Follows calls seen (t.indexForOutputIndex out id name).2 := by
  have hout : ∀ o, out = some o → t.outputIndexMap.get? o = some k := by
    rintro o rfl
    rw [ho o rfl,h.output,hk]
  unfold ToolCallIndex.indexForOutputIndex
  cases id with
  | some s =>
    obtain ⟨hne,hs⟩ := hid s rfl
    rw [toolCallKey_id hne]
    cases out with
    | some o =>
      simp only [Option.bind_some,hout o rfl,h.setIndex_owned hk hs]
      exact ⟨trivial,h⟩
    | none =>
      simp only [Option.bind_none,indexForKey,h.owned hk hs]
      exact ⟨trivial,h⟩
  | none =>
    cases out with
    | none => simp at hnamed
    | some o =>
      cases hname : name.filter (· ≠ "") with
      | none =>
        simp only [toolCallKey,Option.bind_some,hout o rfl,Option.filter_none,hname]
        exact ⟨trivial,h⟩
      | some n =>
        simp only [toolCallKey,Option.bind_some,hout o rfl,Option.filter_none,hname]
        exact ⟨trivial,h.setIndex_name n k⟩

theorem Follows.registerItemIdAlias (hk : seen.idxOf? j = some k) (hp : (calls j).Names p) (i : ℕ) :
    registerItemIdAlias p i t = t := by
  have hitem : ∀ item, p.obj? "item" = some item → registerItemId item i t = t := by
    intro item hitem
    unfold registerItemId
    cases hid : item.text? "id" with
    | none => rfl
    | some s =>
      simp only []
      split_ifs with hs
      · rfl
      · obtain ⟨v,hv,hstr⟩ := Option.bind_eq_some_iff.mp hid
        have hmem : some (.str s) ∈ idFields p := by
          cases v <;> cases hstr
          simp [idFields,hitem,hv]
        exact h.setIndex_owned hk (hp.ids _ hmem s (by simp [idText,(not_or.mp hs).1])) i
  unfold Chat.registerItemIdAlias
  cases hobj : p.obj? "item" with
  | none => rfl
  | some item =>
    cases ho : p.int? "output_index" with
    | none => exact hitem item hobj
    | some o =>
      simp only [hitem item hobj,registerOutputIndex,hp.output o ho,h.output,hk,
        Option.isSome_some,if_true]

theorem Follows.named (hk : seen.idxOf? j = some k) (hp : (calls j).Names p) :
    (∀ d, (toolCallDeltaFromPayload p t).1 = some d → d.index = k) ∧
      Follows calls seen (toolCallDeltaFromPayload p t).2 := by
  unfold toolCallDeltaFromPayload
  split_ifs
  · cases hf : extractToolCallFields p with
    | none => exact ⟨nofun,h⟩
    | some f =>
      have hid := extractToolCallFields_callId hf
      rw [firstStr_eq (idFields p)] at hid
      simp only [hid]
      have hown : ∀ s, (idFields p).findSome? idText = some s → s ≠ "" ∧ (calls j).Owns s := by
        intro s hs
        obtain ⟨v,hv,hvs⟩ := List.exists_of_findSome?_eq_some hs
        refine ⟨?_,hp.ids v hv s hvs⟩
        rcases hp.ids v hv s hvs with rfl | rfl
        · exact (calls j).item_ne
        · exact (calls j).call_ne
      obtain ⟨hindex,hfollows⟩ := h.indexForOutputIndex hk hp.output hown
        (hp.named.imp_right fun ⟨v,hv,hne⟩ hnone =>
          hne (List.findSome?_eq_none_iff.mp hnone v hv)) f.name
      rw [hfollows.registerItemIdAlias hk hp]
      refine ⟨?_,hfollows⟩
      rintro d hd
      cases hd
      exact hindex
  · exact ⟨nofun,h⟩

end

theorem Follows.opened (hd : DistinctCalls calls) (h : Follows calls seen t) (hj : j ∉ seen)
    (hp : (calls j).Opens p) :
    (toolCallDeltaFromPayload p t).1.map (·.index) = some seen.length ∧
      Follows calls (seen++[j]) (toolCallDeltaFromPayload p t).2 := by
  obtain ⟨-,ho,item,hitem,hid,hcall⟩ := hp
  have hnew : seen.idxOf? j = none := List.idxOf?_eq_none_iff.mpr hj
  have hget : item.get? "call_id" = some (.str (calls j).callId) := by
    obtain ⟨v,hv,hstr⟩ := Option.bind_eq_some_iff.mp hcall
    cases v <;> cases hstr
    exact hv
  have htool : isToolItem item = true := by simp [isToolItem,Object.has,hget]
  have hevent : isToolCallEvent p = true := by simp [isToolCallEvent,hitem,htool]
  have hcand : selectToolCallCandidate p = item := by
    simp only [selectToolCallCandidate,hitem,htool,if_true]
  have hfields : ∃ f, extractToolCallFields p = some f ∧ f.callId = some (calls j).callId := by
    have hcid : candidateCallId item (item.obj? "delta") = some (calls j).callId := by
      simp [candidateCallId,hget,firstStr,(calls j).call_ne]
    simp only [extractToolCallFields,hcand,hcid]
    exact ⟨_,rfl,rfl⟩
  obtain ⟨f,hf,hfc⟩ := hfields
  have hr : t.indexForOutputIndex (some (calls j).outputIndex) (some (calls j).callId) f.name =
      (seen.length,⟨t.indexes.set ("id:"++(calls j).callId) seen.length,seen.length+1,
        t.outputIndexMap.set (calls j).outputIndex seen.length⟩) := by
    simp [ToolCallIndex.indexForOutputIndex,toolCallKey_id (calls j).call_ne,h.output,hnew,
      indexForKey,h.call,h.next,registerOutputIndex]
  have hne : (calls j).callId ≠ (calls j).itemId := (hd.disjoint j j).symm
  have halias : Chat.registerItemIdAlias p seen.length (t.indexForOutputIndex
      (some (calls j).outputIndex) (some (calls j).callId) f.name).2 =
      t.admit (calls j) seen.length := by
    simp [hr,Chat.registerItemIdAlias,hitem,ho,registerItemId,hid,(calls j).item_ne,hcall,hne,
      registerAlias,setIndex,Dict.get?_set,hne.symm,h.item,hnew,
      registerOutputIndex, ToolCallIndex.admit]
  have hdelta : (toolCallDeltaFromPayload p t).1.map (·.index) = some seen.length ∧
      (toolCallDeltaFromPayload p t).2 = t.admit (calls j) seen.length := by
    rw [← halias]
    simp [toolCallDeltaFromPayload,hevent,hf,hfc,ho,hr]
  have hidx : ∀ i, (seen++[j]).idxOf? i = if i = j then some seen.length else seen.idxOf? i := by
    intro i
    rw [List.idxOf?] at hnew
    by_cases hi : i = j
    · simp [List.idxOf?,List.findIdx?_append,hi,hnew]
    · simp [List.idxOf?,List.findIdx?_append,hi,Ne.symm hi]
  rw [hdelta.2, ToolCallIndex.admit]
  refine ⟨hdelta.1,by simp,fun i => ?_,fun i => ?_,fun i => ?_⟩
  · simp only [Dict.get?_set,String.append_right_inj,(hd.disjoint i j),h.item,hidx,if_false]
    by_cases hi : i = j
    · simp [hi]
    · simp [hi,mt (hd.item i j) hi]
  · simp only [Dict.get?_set,String.append_right_inj,(hd.disjoint j i).symm,h.call,hidx,if_false]
    by_cases hi : i = j
    · simp [hi]
    · simp [hi,mt (hd.call i j) hi]
  · simp only [Dict.get?_set,h.output,hidx]
    by_cases hi : i = j
    · simp [hi]
    · simp [hi,mt (hd.output i j) hi]

theorem getElem?_firstSeen (h : seen[k]? = some j) (js : List ι) :
    (firstSeen seen js)[k]? = some j := by
  induction js generalizing seen with
  | nil => exact h
  | cons i js ih =>
    apply ih
    split_ifs
    · exact h
    · rw [List.getElem?_append_left (List.getElem?_eq_some_iff.mp h).1,h]

theorem getElem?_of_idxOf? (h : seen.idxOf? j = some k) : seen[k]? = some j := by
  obtain ⟨hlt,heq,-⟩ := List.findIdx?_eq_some_iff_getElem.mp h
  rw [List.getElem?_eq_getElem hlt,eq_of_beq heq]

theorem nodup_firstSeen (h : seen.Nodup) {js : List ι} : (firstSeen seen js).Nodup := by
  induction js generalizing seen with
  | nil => exact h
  | cons j js ih =>
    apply ih
    split_ifs with hj
    · exact h
    · exact List.nodup_append.mpr ⟨h,List.nodup_singleton j,by
        rintro a ha b hb rfl
        exact hj (List.mem_singleton.mp hb ▸ ha)⟩

theorem Follows.run (hd : DistinctCalls calls) {es : List (ι × Object)} (h : Follows calls seen t)
    (hes : Interleaves calls seen es) {m : ℕ} {e : ι × Object} {o : Option ℕ}
    (he : es[m]? = some e) (ho : (slotsOf t (es.map Prod.snd))[m]? = some o) :
    (o = none → e.1 ∈ seen ∨ e.1 ∈ (es.take m).map Prod.fst) ∧
      ∀ i, o = some i → (firstSeen seen (es.map Prod.fst))[i]? = some e.1 := by
  induction es generalizing seen t m with
  | nil => simp at he
  | cons f es ih =>
    unfold Interleaves at hes
    simp only [List.map_cons,slotsOf,firstSeen] at ho ⊢
    split_ifs at hes ⊢ with hf
    · obtain ⟨k,hk⟩ := Option.isSome_iff_exists.mp (List.isSome_idxOf?.mpr hf)
      obtain ⟨hindex,hfollows⟩ := h.named hk hes.1
      cases m with
      | zero =>
        cases he
        cases ho
        refine ⟨fun _ => .inl hf,fun i hi => getElem?_firstSeen ?_ _⟩
        obtain ⟨d,hd,rfl⟩ := Option.map_eq_some_iff.mp hi
        rw [hindex d hd]
        exact getElem?_of_idxOf? hk
      | succ m =>
        obtain ⟨hnone,hsome⟩ := ih hfollows hes.2 he ho
        exact ⟨fun hn => (hnone hn).imp_right fun hm => List.mem_cons_of_mem _ hm,hsome⟩
    · obtain ⟨hindex,hfollows⟩ := h.opened hd hf hes.1
      cases m with
      | zero =>
        cases he
        cases ho
        rw [hindex]
        refine ⟨nofun,fun i hi => getElem?_firstSeen ?_ _⟩
        cases hi
        exact List.getElem?_concat_length
      | succ m =>
        obtain ⟨hnone,hsome⟩ := ih hfollows hes.2 he ho
        refine ⟨fun hn => ?_,hsome⟩
        rcases hnone hn with hm | hm
        · exact (List.mem_append.mp hm).imp_right fun hm =>
            List.mem_cons.mpr (.inl (List.mem_singleton.mp hm))
        · exact .inr (List.mem_cons_of_mem _ hm)

/-- In every interleaving whose events name their calls where the code asks for
them, each event that tells something is given the slot of its call, and the calls
have the slots from zero on in the order of their first events. An event that
opens a call tells something. -/
theorem calls_routed (hd : DistinctCalls calls) (es : List (ι × Object))
    (hes : Interleaves calls [] es) :
    (firstSeen [] (es.map Prod.fst)).Nodup ∧
    ∀ m e o, es[m]? = some e → (slotsOf .empty (es.map Prod.snd))[m]? = some o →
      (e.1 ∉ (es.take m).map Prod.fst → Tells e.2) ∧ (o = none ↔ ¬Tells e.2) ∧
      ∀ i, o = some i → (firstSeen [] (es.map Prod.fst))[i]? = some e.1 := by
  have hempty : Follows calls [] empty :=
    ⟨rfl,fun _ => rfl,fun _ => rfl,fun _ => rfl⟩
  refine ⟨nodup_firstSeen List.nodup_nil,fun m e o he ho => ?_⟩
  obtain ⟨hnone,hsome⟩ := hempty.run hd hes he ho
  have htells := slotsOf_eq_none (by rw [List.getElem?_map,he]; rfl) ho
  refine ⟨fun hnew => ?_,htells,hsome⟩
  by_contra hquiet
  exact (hnone (htells.mpr hquiet)).elim (by simp) hnew

end

def LogicalCall.opening (c : LogicalCall) : Object :=
  ⟨[("type",.str "response.output_item.added"),("output_index",.int c.outputIndex),
    ("item",.obj [("id",.str c.itemId),("call_id",.str c.callId)])]⟩

theorem LogicalCall.opens_opening {c : LogicalCall} : c.Opens c.opening :=
  ⟨rfl,rfl,_,rfl,rfl,rfl⟩

def twoCalls (b : Bool) : LogicalCall :=
  if b then ⟨1,"fc_2","call_2",by decide,by decide⟩ else ⟨0,"fc_1","call_1",by decide,by decide⟩

theorem twoCalls_distinct : DistinctCalls twoCalls := ⟨by decide,by decide,by decide,by decide⟩

def deltaOfSecond : Object :=
  ⟨[("type",.str "response.function_call_arguments.delta"),("item_id",.str "fc_2"),
    ("delta",.str "1")]⟩

theorem second_call_kept :
    (slotsOf .empty [(twoCalls false).opening,(twoCalls true).opening,deltaOfSecond])[2]? =
      some (some 1) ∧ Tells deltaOfSecond ∧ [false,true][1]? = some true := by
  have hfields : idFields deltaOfSecond =
      [none,none,none,none,none,none,some (.str "fc_2"),none] := rfl
  have hnames : (twoCalls true).Names deltaOfSecond :=
    ⟨by simp [hfields,idText,LogicalCall.Owns,twoCalls],nofun,.inr (by simp [hfields,idText])⟩
  have hi : (slotsOf .empty
      [(twoCalls false).opening,(twoCalls true).opening,deltaOfSecond])[2]? = some (some 1) := by
    decide +kernel
  obtain ⟨-,htells,hslot⟩ := (calls_routed twoCalls_distinct [(false,(twoCalls false).opening),
    (true,(twoCalls true).opening),(true,deltaOfSecond)]
    (by simp [Interleaves,LogicalCall.opens_opening,hnames])).2 2 _ _ rfl hi
  exact ⟨hi,not_not.mp (mt htells.mpr (by simp)),hslot 1 rfl⟩

/-- The id of the second call stands beside an item that names no call: the event
goes to the slot of the first call. -/
def argumentsOfSecond : Object :=
  ⟨[("type",.str "response.function_call_arguments.done"),("call_id",.str "call_2"),
    ("item",.obj [("type",.str "function_call"),("arguments",.str "[]")])]⟩

theorem second_call_misrouted : argumentsOfSecond.text? "call_id" = some (twoCalls true).callId ∧
      slotsOf .empty [(twoCalls false).opening,(twoCalls true).opening,argumentsOfSecond] =
        [some 0,some 1,some 0] := by
  decide +kernel

end CodexLb.Chat
