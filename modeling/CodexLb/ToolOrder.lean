import CodexLb.JsonText

/-!
# The order of the tools of a request

Before a request is sent on, its tools are sorted by name and the keys of every
tool are sorted, so that requests with the same tools share a prompt cache. The
sort is stable and a tool without a name counts as one with the empty name: the
tools of one name keep the order they came in.
-/
namespace CodexLb.ToolOrder
open Json JsonText

section Keyed
variable {α β : Type*} [LinearOrder β] (key : α → β)

def sortBy (l : List α) : List α := l.insertionSort fun a b => key a ≤ key b

def withKey (k : β) (l : List α) : List α := l.filter fun a => key a = k

variable {key} {l m : List α}

theorem withKey_sortBy {k : β} : withKey key k (sortBy key l) = withKey key k l := by
  have hequal : (withKey key k l).Pairwise fun a b => key a ≤ key b := by
    refine List.pairwise_iff_forall_sublist.mpr fun {a b} hab => ?_
    have hkey : ∀ c ∈ [a,b], key c = k := fun c hc =>
      of_decide_eq_true (List.mem_filter.mp (hab.subset hc)).2
    rw [hkey a (by simp),hkey b (by simp)]
  have hsub := (List.sublist_insertionSort hequal List.filter_sublist).filter fun a => key a = k
  rw [withKey,List.filter_filter] at hsub
  simp only [Bool.and_self] at hsub
  exact (hsub.eq_of_length ((List.perm_insertionSort _ l).filter _).length_eq.symm).symm

theorem mem_of_withKey (h : ∀ k, withKey key k l = withKey key k m) {a : α} (ha : a ∈ l) :
    a ∈ m := by
  have hmem : a ∈ withKey key (key a) l := List.mem_filter.mpr ⟨ha,decide_eq_true rfl⟩
  rw [h] at hmem
  exact (List.mem_filter.mp hmem).1

/-- A sorted list is decided by the order of its members within each key. -/
theorem eq_of_withKey (hl : l.Pairwise fun a b => key a ≤ key b)
    (hm : m.Pairwise fun a b => key a ≤ key b)
    (h : ∀ k, withKey key k l = withKey key k m) : l = m := by
  induction l generalizing m with
  | nil =>
    cases m with
    | nil => rfl
    | cons b m => cases mem_of_withKey (fun k => (h k).symm) (List.mem_cons_self (a := b))
  | cons a l ih =>
    cases m with
    | nil => cases mem_of_withKey h (List.mem_cons_self (a := a))
    | cons b m =>
      have hleast {c d : α} {n : List α} (hn : (c::n).Pairwise fun a b => key a ≤ key b)
          (hd : d ∈ c::n) : key c ≤ key d := by
        rcases List.mem_cons.mp hd with rfl | hd
        · exact le_rfl
        · exact (List.pairwise_cons.mp hn).1 d hd
      have hkey : key b = key a := le_antisymm (hleast hm (mem_of_withKey h List.mem_cons_self))
        (hleast hl (mem_of_withKey (fun k => (h k).symm) List.mem_cons_self))
      have hhead := h (key a)
      simp only [withKey,List.filter_cons,hkey,decide_true,if_true,List.cons.injEq] at hhead
      obtain ⟨rfl,htail⟩ := hhead
      rw [ih hl.of_cons hm.of_cons fun k => ?_]
      by_cases hk : key a = k
      · exact hk ▸ htail
      · have hrest := h k
        simpa [withKey,List.filter_cons,hk] using hrest

theorem sortBy_eq_iff : sortBy key l = sortBy key m ↔ ∀ k, withKey key k l = withKey key k m := by
  constructor
  · intro h k
    rw [← withKey_sortBy,h,withKey_sortBy]
  · intro h
    have hsorted (n : List α) : (sortBy key n).Pairwise fun a b => key a ≤ key b :=
      List.pairwise_insertionSort _ n
    refine eq_of_withKey (hsorted l) (hsorted m) fun k => ?_
    rw [withKey_sortBy,withKey_sortBy,h]

end Keyed

def toolSortKey (tool : Json) : String :=
  match tool.obj? with
  | none => ""
  | some o =>
    match o.text? "name" with
    | some name => name
    | none => ((o.obj? "function").bind (·.text? "name")).getD ""

/-- `_sort_keys_recursive` is the `sorted` of the canonical text. -/
def canonicalTools (tools : List Json) : List Json := (sortBy toolSortKey tools).map sorted

def canonicalizeTools (payload : Object) : Object :=
  match payload.get? "tools" with
  | some (.arr tools) =>
    if tools = [] then payload else payload.set "tools" (.arr (canonicalTools tools))
  | _ => payload

def sortedObject (o : Object) : Object := ⟨(sortedRows o.rows).insertionSort fun q r => q.1 ≤ r.1⟩

theorem get?_sortedObject {o : Object} {k : String} :
    (sortedObject o).get? k = (o.get? k).map sorted := by
  have hrows (rows : List (String × Json)) :
      sortedRows rows = rows.map fun q => (q.1,sorted q.2) := by
    induction rows with
    | nil => rfl
    | cons row rows ih =>
      rw [sortedRows,ih,sortedRow,List.map_cons]
  have hfind (l : List (String × Json)) :
      l.find? (fun q => q.1 = k) = (withKey Prod.fst k l).head? := by
    rw [withKey,List.head?_filter]
  rw [Object.get?,Object.get?,hfind]
  change ((withKey Prod.fst k (sortBy Prod.fst (sortedRows o.rows))).head?).map Prod.snd = _
  rw [withKey_sortBy,← hfind,hrows,List.find?_map,Option.map_map,Option.map_map]
  rfl

theorem text?_sortedObject (o : Object) (k : String) : (sortedObject o).text? k = o.text? k := by
  rw [Object.text?,get?_sortedObject,Object.text?]
  rcases o.get? k with _ | v
  · rfl
  · cases v <;> rfl

theorem toolSortKey_sorted {t : Json} : toolSortKey (sorted t) = toolSortKey t := by
  cases t with
  | obj rows =>
    have hname := text?_sortedObject ⟨rows⟩ "name"
    have hfunction : ((sortedObject ⟨rows⟩).obj? "function").bind (·.text? "name") =
        ((Object.mk rows).obj? "function").bind (·.text? "name") := by
      rw [Object.obj?,get?_sortedObject,Object.obj?]
      rcases (Object.mk rows).get? "function" with _ | v
      · rfl
      · cases v with
        | obj func => exact text?_sortedObject ⟨func⟩ "name"
        | _ => rfl
    change (match (sortedObject ⟨rows⟩).text? "name" with
      | some name => name
      | none => (((sortedObject ⟨rows⟩).obj? "function").bind (·.text? "name")).getD "") = _
    rw [hname,hfunction]
    rfl
  | _ => rfl

variable {tools : List Json}

/-- Sorting the tools by name and then their keys, or the other way round. -/
theorem canonicalTools_eq : canonicalTools tools = sortBy toolSortKey (tools.map sorted) :=
  List.map_insertionSort _ _ sorted tools fun a _ b _ => by
    rw [toolSortKey_sorted,toolSortKey_sorted]

theorem tools_canonicalizeTools {payload : Object} (h : payload.get? "tools" = some (.arr tools)) :
    (canonicalizeTools payload).get? "tools" = some (.arr (canonicalTools tools)) := by
  simp only [canonicalizeTools,h]
  split_ifs with hnil
  · rw [h,hnil]
    rfl
  · rw [Object.get?_set,if_pos rfl]

theorem validAll_iff {xs : List Json} : validAll xs = true ↔ ∀ x ∈ xs, valid x = true := by
  induction xs with
  | nil => exact ⟨fun _ _ h => absurd h List.not_mem_nil,fun _ => rfl⟩
  | cons x xs ih => rw [validAll,Bool.and_eq_true,ih,List.forall_mem_cons]

theorem valid_canonicalTools (h : validAll tools = true) :
    valid (.arr (canonicalTools tools)) = true := by
  rw [valid,validAll_iff]
  intro x hx
  obtain ⟨t,ht,rfl⟩ := List.mem_map.mp hx
  exact valid_sorted (validAll_iff.mp h t ((List.mem_insertionSort _).mp ht))

/-- The tools of two requests are written alike exactly if, name by name, they
come in the same order; and nothing is lost or added. -/
theorem canonical_iff_same_order {p q : Object} {a b : List Json}
    (hp : p.get? "tools" = some (.arr a)) (hq : q.get? "tools" = some (.arr b))
    (ha : validAll a = true) (hb : validAll b = true) :
    (((canonicalizeTools p).get? "tools").map text = ((canonicalizeTools q).get? "tools").map text ↔
      ∀ name, withKey toolSortKey name (a.map sorted) = withKey toolSortKey name (b.map sorted)) ∧
    ∃ c, (canonicalizeTools p).get? "tools" = some (.arr c) ∧ c.Perm (a.map sorted) := by
  refine ⟨?_,_,tools_canonicalizeTools hp,(List.perm_insertionSort _ a).map sorted⟩
  rw [tools_canonicalizeTools hp,tools_canonicalizeTools hq,← sortBy_eq_iff,← canonicalTools_eq,
    ← canonicalTools_eq]
  constructor
  · intro h
    have htext : text (.arr (canonicalTools a))++[] = text (.arr (canonicalTools b))++[] := by
      rw [List.append_nil,List.append_nil]
      exact Option.some.inj h
    exact Json.arr.inj (text_inj (valid_canonicalTools ha) (valid_canonicalTools hb) stop_nil
      stop_nil htext).1
  · intro h
    rw [h]

def named (name : String) : Json := .obj [("type",.str "function"),("name",.str name)]

theorem named_tools_canonical :
    ((canonicalizeTools ⟨[("tools",.arr [named "f",named "g"])]⟩).get? "tools").map text =
        ((canonicalizeTools ⟨[("tools",.arr [named "g",named "f"])]⟩).get? "tools").map text ∧
      withKey toolSortKey "f" ([named "f",named "g"].map sorted) =
        withKey toolSortKey "f" ([named "g",named "f"].map sorted) := by
  have htext : ((canonicalizeTools ⟨[("tools",.arr [named "f",named "g"])]⟩).get? "tools").map text =
      ((canonicalizeTools ⟨[("tools",.arr [named "g",named "f"])]⟩).get? "tools").map text := by
    decide +kernel
  exact ⟨htext,(canonical_iff_same_order rfl rfl rfl rfl).1.mp htext "f"⟩

def builtin (type : String) : Json := .obj [("type",.str type)]

/-- Two tools without a name are written in the order they came in. -/
theorem unnamed_tools_differ : ([builtin "web_search",builtin "local_shell"].map sorted).Perm
        ([builtin "local_shell",builtin "web_search"].map sorted) ∧
      ((canonicalizeTools ⟨[("tools",.arr [builtin "web_search",builtin "local_shell"])]⟩).get?
          "tools").map text ≠
        ((canonicalizeTools ⟨[("tools",.arr [builtin "local_shell",builtin "web_search"])]⟩).get?
          "tools").map text :=
  ⟨.swap _ _ _,by decide +kernel⟩

end CodexLb.ToolOrder
