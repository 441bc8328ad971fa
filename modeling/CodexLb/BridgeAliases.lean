import CodexLb.BridgeOperations
import CodexLb.NameIndex

/-!
# The alias indexes

The turn-state index and the previous-response index lead from an alias or a
response id, within the scope of an API key, to the key of a session. A session
gives its aliases up by alias alone. If another session has registered one of
them since, its entry is gone although it is live: this is what happens when a
session is evicted, its replacement takes over the alias, and the close of the
first one comes late. A lookup also forgets an entry whose session is open but
cannot serve the request.

Where an alias is registered for one session object at a time, and entries of
live sessions are not forgotten, both indexes are exact.
-/
namespace CodexLb.Bridge
open Runs Registry

variable {apiKeyId : Option String} {as : List String} {a : AliasKey}

theorem mem_aliasKeys : a ∈ aliasKeys apiKeyId as ↔ a.1 ∈ as ∧ a.2 = apiKeyId := by
  obtain ⟨name,scope⟩ := a
  simp only [aliasKeys,List.mem_map,Prod.mk.injEq]
  constructor
  · rintro ⟨b,hb,rfl,rfl⟩
    exact ⟨hb,rfl⟩
  · rintro ⟨hname,rfl⟩
    exact ⟨name,hname,rfl,rfl⟩

def Registry.holding (lists : Session → List String) (r : Registry) (sid : ℕ) :
    Option (SessionKey × List String) := (r.heap.get? sid).map fun x => (x.key,lists x)

def Registry.nameIndex (lists : Session → List String) (r : Registry)
    (index : Dict AliasKey SessionKey) (last : Dict AliasKey ℕ) : NameIndex ℕ AliasKey SessionKey where
  names sid := ((r.holding lists sid).map fun h => aliasKeys h.1.apiKeyId h.2).getD []
  value sid := (r.holding lists sid).map Prod.fst
  index := index.get?
  last := last.get?

section Names
variable {lists : Session → List String} {r : Registry} {index : Dict AliasKey SessionKey}
  {last : Dict AliasKey ℕ} {sid : ℕ} {x : Session}

theorem names_eq (hs : r.heap.get? sid = some x) :
    (r.nameIndex lists index last).names sid = aliasKeys x.key.apiKeyId (lists x) := by
  simp [nameIndex,holding,hs]

theorem value_eq (hs : r.heap.get? sid = some x) :
    (r.nameIndex lists index last).value sid = some x.key := by
  simp [nameIndex,holding,hs]

theorem mem_names {a : AliasKey} : a ∈ (r.nameIndex lists index last).names sid ↔
    ∃ x, r.heap.get? sid = some x ∧ a.1 ∈ lists x ∧ a.2 = x.key.apiKeyId := by
  cases hs : r.heap.get? sid with
  | none => simp [nameIndex,holding,hs]
  | some x => simp [names_eq hs,mem_aliasKeys]

end Names

theorem get?_indexAliases {key : SessionKey} (d : Dict AliasKey SessionKey) :
    (a ∈ aliasKeys key.apiKeyId as → (indexAliases key as d).get? a = some key) ∧
      (a ∉ aliasKeys key.apiKeyId as → (indexAliases key as d).get? a = d.get? a) := by
  have hfold : indexAliases key as d = (aliasKeys key.apiKeyId as).foldl (·.set · key) d := by
    induction as generalizing d with
    | nil => rfl
    | cons b as ih => exact ih _
  rw [hfold]
  exact Dict.get?_foldl (fun d b a => Dict.get?_set d b a key) _ d a

theorem get?_popAll (d : Dict AliasKey SessionKey) :
    (a ∈ aliasKeys apiKeyId as → (popAll apiKeyId as d).get? a = none) ∧
      (a ∉ aliasKeys apiKeyId as → (popAll apiKeyId as d).get? a = d.get? a) := by
  have hfold : popAll apiKeyId as d = (aliasKeys apiKeyId as).foldl Dict.pop d := by
    induction as generalizing d with
    | nil => rfl
    | cons b as ih => exact ih _
  rw [hfold]
  exact Dict.get?_foldl Dict.get?_pop _ d a

section Changes
variable {lists : Session → List String} {r q : Registry} {index index' : Dict AliasKey SessionKey}
  {last last' : Dict AliasKey ℕ} {L : ℕ → Prop} {sid : ℕ} {x y : Session}

theorem holding_other (hheap : q.heap = r.heap.set sid y) {j : ℕ} (hj : j ≠ sid) :
    q.holding lists j = r.holding lists j := by
  rw [holding,hheap,Dict.get?_set,if_neg hj]
  rfl

theorem holding_set (hs : r.heap.get? sid = some x) (hheap : q.heap = r.heap.set sid y)
    (hkey : y.key = x.key) (hlists : lists y = lists x) (j : ℕ) :
    q.holding lists j = r.holding lists j := by
  rw [holding,hheap]
  exact map_get?_set (fun x => (x.key,lists x)) hs y (by rw [hkey,hlists]) j

theorem holding_modify {f : Session → Session} (hf : ∀ x, (f x).key = x.key ∧ lists (f x) = lists x)
    (j : ℕ) : (r.modify sid f).holding lists j = r.holding lists j := by
  unfold Registry.modify
  split
  · rename_i x hs
    exact holding_set hs rfl (hf x).1 (hf x).2 j
  · rfl

theorem change_of_holding (hholding : ∀ j, q.holding lists j = r.holding lists j)
    (hindex : ∀ a, index'.get? a = index.get? a) :
    NameIndex.Change L (r.nameIndex lists index last) (q.nameIndex lists index' last) := by
  refine .drops (D := fun _ => False) ⟨?_,nofun,fun a _ => hindex a,fun _ => rfl⟩ fun _ _ _ _ => id
  intro p n hn
  simp only [nameIndex,hholding] at hn ⊢
  exact ⟨hn,trivial⟩

theorem change_set (hs : r.heap.get? sid = some x) (hheap : q.heap = r.heap.set sid y)
    (hkey : y.key = x.key) (hlists : lists y = lists x) :
    NameIndex.Change L (r.nameIndex lists index last) (q.nameIndex lists index last) :=
  change_of_holding (holding_set hs hheap hkey hlists) fun _ => rfl

/-- A session that lists nothing takes no name from the others. -/
theorem names_set (hheap : q.heap = r.heap.set sid y) (hlists : lists y = []) (p : ℕ)
    {n : AliasKey} (hn : n ∈ (q.nameIndex lists index' last').names p) :
    n ∈ (r.nameIndex lists index last).names p ∧
      (q.nameIndex lists index' last').value p = (r.nameIndex lists index last).value p := by
  by_cases hp : p = sid
  · have hnew : q.heap.get? p = some y := by rw [hheap,Dict.get?_set,if_pos hp]
    rw [names_eq hnew,hlists] at hn
    cases hn
  · simp only [nameIndex,holding_other hheap hp] at hn ⊢
    exact ⟨hn,trivial⟩

theorem change_create (hheap : q.heap = r.heap.set sid x) (hlists : lists x = []) :
    NameIndex.Change L (r.nameIndex lists index last) (q.nameIndex lists index last) :=
  .drops (D := fun _ => False) ⟨names_set hheap hlists,nofun,fun _ _ => rfl,fun _ => rfl⟩
    fun _ _ _ _ => id

theorem drops_release (hs : r.heap.get? sid = some x) (hheap : q.heap = r.heap.set sid y)
    (hlists : lists y = []) :
    NameIndex.Drops (· ∈ (r.nameIndex lists index last).names sid) (r.nameIndex lists index last)
      (q.nameIndex lists (popAll x.key.apiKeyId (lists x) index) last) := by
  rw [names_eq hs]
  exact ⟨names_set hheap hlists,fun a => (get?_popAll _).1,fun a => (get?_popAll _).2,
    fun _ => rfl⟩

theorem change_release (hs : r.heap.get? sid = some x) (hheap : q.heap = r.heap.set sid y)
    (hlists : lists y = []) :
    NameIndex.Change L (r.nameIndex lists index last)
      (q.nameIndex lists (popAll x.key.apiKeyId (lists x) index) last) := by
  have hnew : q.heap.get? sid = some y := by rw [hheap,Dict.get?_set,if_pos rfl]
  refine .releases (drops_release hs hheap hlists) ?_
  rw [names_eq hnew,hlists]
  rfl

theorem change_register (as : List String) (hs : r.heap.get? sid = some x)
    (hheap : q.heap = r.heap.set sid y) (hkey : y.key = x.key)
    (hlists : ∀ a ∈ lists y,a ∈ lists x ∨ a ∈ as)
    (hwritten : ∀ a ∈ aliasKeys x.key.apiKeyId as,
      index'.get? a = some x.key ∧ last'.get? a = some sid)
    (hothers : ∀ a ∉ aliasKeys x.key.apiKeyId as,
      index'.get? a = index.get? a ∧ last'.get? a = last.get? a)
    (hfree : ∀ a ∈ as,∀ j z, r.heap.get? j = some z → z.key.apiKeyId = x.key.apiKeyId →
      a ∈ lists z → j = sid) :
    NameIndex.Change L (r.nameIndex lists index last) (q.nameIndex lists index' last') := by
  have hnew : q.heap.get? sid = some y := by rw [hheap,Dict.get?_set,if_pos rfl]
  refine .registers (show NameIndex.Registers sid (aliasKeys x.key.apiKeyId as) _ _ from
    ⟨?_,?_,hothers⟩) ?_ ?_
  · intro p n hn
    by_cases hp : p = sid
    · subst hp
      rw [names_eq hnew,mem_aliasKeys,hkey] at hn
      rw [names_eq hs,value_eq hs,value_eq hnew,hkey,mem_aliasKeys,mem_aliasKeys]
      exact ⟨(hlists _ hn.1).imp (fun h => ⟨h,hn.2⟩) fun h => ⟨rfl,h,hn.2⟩,rfl⟩
    · simp only [nameIndex,holding_other hheap hp] at hn ⊢
      exact ⟨.inl hn,trivial⟩
  · intro a ha
    rw [value_eq hs]
    exact hwritten a ha
  · rw [value_eq hs]
    simp
  · intro a ha p hp
    obtain ⟨z,hz,hmem,hscope⟩ := mem_names.mp hp
    obtain ⟨hname,hsame⟩ := mem_aliasKeys.mp ha
    exact hfree a.1 hname p z hz (hscope.symm.trans hsame) hmem

end Changes

namespace Registrars
variable (s : Registrars)

def turnStateNames : NameIndex ℕ AliasKey SessionKey :=
  s.registry.nameIndex Session.downstreamTurnStateAliases s.registry.turnStateIndex s.turnStates

def responseNames : NameIndex ℕ AliasKey SessionKey :=
  s.registry.nameIndex Session.previousResponseIds s.registry.previousResponseIndex s.responses

def Live (sid : ℕ) : Prop :=
  ∃ key x, s.registry.session? key = some (sid,x) ∧ x.closed = false

/-- Each alias and each response id that a live session was the last to register
leads to its key. -/
structure Indexed : Prop where
  turnStates : ∀ key sid x, s.registry.session? key = some (sid,x) → x.closed = false →
    ∀ a ∈ x.downstreamTurnStateAliases,s.turnStates.get? (a,x.key.apiKeyId) = some sid →
      s.registry.turnStateIndex.get? (a,x.key.apiKeyId) = some x.key
  responses : ∀ key sid x, s.registry.session? key = some (sid,x) → x.closed = false →
    ∀ a ∈ x.previousResponseIds,s.responses.get? (a,x.key.apiKeyId) = some sid →
      s.registry.previousResponseIndex.get? (a,x.key.apiKeyId) = some x.key

/-- Unregistering a session removes only entries that lead to its key and that no
other session has registered later. -/
structure RemovesOwn (sid : ℕ) (x : Session) : Prop where
  turnStates : ∀ a k, s.registry.turnStateIndex.get? a = some k →
    (s.registry.unregisterTurnStates sid).turnStateIndex.get? a = none →
      k = x.key ∧ s.turnStates.get? a = some sid
  responses : ∀ a k, s.registry.previousResponseIndex.get? a = some k →
    (s.registry.unregisterPreviousResponseIds sid).previousResponseIndex.get? a = none →
      k = x.key ∧ s.responses.get? a = some sid

/-- Every alias and response id of the session is in the index. -/
def listed (x : Session) : Bool :=
  x.downstreamTurnStateAliases.all
      (fun a => (s.registry.turnStateIndex.get? (a,x.key.apiKeyId)).isSome) &&
    x.previousResponseIds.all
      fun a => (s.registry.previousResponseIndex.get? (a,x.key.apiKeyId)).isSome

/-- No other session of the API key lists the name. -/
def Alone (lists : Session → List String) (sid : ℕ) (a : String) : Prop :=
  ∀ x ∈ s.registry.heap.get? sid,∀ p ∈ s.registry.heap.rows,
    p.2.key.apiKeyId = x.key.apiKeyId → a ∈ lists p.2 → p.1 = sid

/-- The entry leads to a session that is closed, or to none. -/
def Dead (index : Dict AliasKey SessionKey) (a : AliasKey) : Prop :=
  ∀ k ∈ index.get? a,∀ p ∈ s.registry.session? k,p.2.closed = true

/-- The operations that keep the indexes exact: a name is registered for a
session while no other session of the API key lists it, only entries that lead
to no live session are forgotten, and a session is stored or reopened while all
its names are in the index. -/
def Unshared : Operation → Prop
  | .registerTurnState sid turnState | .promote sid turnState =>
    s.Alone Session.downstreamTurnStateAliases sid turnState
  | .registerPreviousResponseId sid responseId =>
    s.Alone Session.previousResponseIds sid responseId
  | .forgetTurnState a => s.Dead s.registry.turnStateIndex a
  | .forgetPreviousResponse a => s.Dead s.registry.previousResponseIndex a
  | .store _ sid => ∀ x ∈ s.registry.heap.get? sid,s.listed x = true
  | .update sid u =>
    ∀ x ∈ s.registry.heap.get? sid,x.closed = true → u.closed = false → s.listed x = true
  | _ => True

end Registrars

variable {f : Session → Session}

theorem indexes_modify {r : Registry} : (r.modify sid f).turnStateIndex = r.turnStateIndex ∧
      (r.modify sid f).previousResponseIndex = r.previousResponseIndex := by
  unfold Registry.modify
  split <;> exact ⟨rfl,rfl⟩

variable {r : Registry} {sid : ℕ}

theorem modify_registerAliases {x : Session} (hs : r.heap.get? sid = some x)
    (hkey : (f x).key = x.key) :
    (r.modify sid f).registerAliases sid = {r with
      heap := r.heap.set sid (f x)
      turnStateIndex := indexAliases x.key (f x).downstreamTurnStateAliases r.turnStateIndex} := by
  simp only [Registry.modify,hs,registerAliases,Dict.get?_set,if_true,hkey]

theorem modify_missing (f : Session → Session) (hs : r.heap.get? sid = none) :
    (r.modify sid f).registerAliases sid = r := by
  simp only [Registry.modify,hs,registerAliases]

namespace Registrars

/-- What holds as long as names are not shared. -/
structure Inv (s : Registrars) : Prop where
  consistent : s.registry.Consistent
  turnStatesOwned : s.turnStateNames.Owned
  responsesOwned : s.responseNames.Owned
  turnStatesMapped : ∀ sid, s.Live sid → s.turnStateNames.Mapped sid
  responsesMapped : ∀ sid, s.Live sid → s.responseNames.Mapped sid

variable {env : Env} {s t : Registrars} {op : Operation} {sid : ℕ}

theorem aliases_change {L : ℕ → Prop} {turnState : String} {f : Session → Session}
    {responses : Dict AliasKey ℕ} (howned : s.turnStateNames.Owned)
    (halone : s.Alone Session.downstreamTurnStateAliases sid turnState)
    (hf : ∀ x, (f x).key = x.key ∧ (f x).downstreamTurnStateAliases =
      x.downstreamTurnStateAliases.insert turnState) :
    NameIndex.Change L s.turnStateNames
      (turnStateNames ⟨(s.registry.modify sid f).registerAliases sid,s.noteAliases sid turnState,
        responses⟩) := by
  cases hs : s.registry.heap.get? sid with
  | none =>
    rw [modify_missing f hs,noteAliases,hs]
    exact .refl _
  | some x =>
    obtain ⟨hkey,haliases⟩ := hf x
    rw [modify_registerAliases hs hkey,noteAliases,hs]
    refine change_register (x.downstreamTurnStateAliases.insert turnState) hs rfl hkey
      (fun a ha => .inr (haliases ▸ ha)) ?_ ?_ ?_
    · intro a ha
      refine ⟨?_,(Dict.get?_foldl (fun d b c => Dict.get?_set d b c sid) _ _ a).1 ha⟩
      rw [haliases]
      exact (get?_indexAliases _).1 ha
    · intro a ha
      refine ⟨?_,(Dict.get?_foldl (fun d b c => Dict.get?_set d b c sid) _ _ a).2 ha⟩
      rw [haliases]
      exact (get?_indexAliases _).2 ha
    · intro a ha j z hz hscope hmem
      rcases List.mem_insert_iff.mp ha with rfl | hold
      · exact halone x hs (j,z) (Dict.get?_eq_some.mp hz) hscope hmem
      · exact howned.alone (n := (a,x.key.apiKeyId)) (mem_names.mpr ⟨z,hz,hmem,hscope.symm⟩)
          (mem_names.mpr ⟨x,hs,hold,rfl⟩)

theorem change_forget (hconsistent : s.registry.Consistent) {lists : Session → List String}
    {index : Dict AliasKey SessionKey} {last : Dict AliasKey ℕ}
    (howned : (s.registry.nameIndex lists index last).Owned) {a : AliasKey}
    (hdead : s.Dead index a) :
    NameIndex.Change s.Live (s.registry.nameIndex lists index last)
      (s.registry.nameIndex lists (index.pop a) last) := by
  refine .drops (D := fun b => b = a ∧ index.get? a ≠ none)
    ⟨fun _ _ hn => ⟨hn,rfl⟩,?_,?_,fun _ => rfl⟩ ?_
  · rintro b ⟨rfl,-⟩
    simp only [nameIndex,Dict.get?_pop,if_true]
  · intro b hb
    simp only [nameIndex,Dict.get?_pop]
    split_ifs with heq
    · subst heq
      exact (not_not.mp fun hne => hb ⟨rfl,hne⟩).symm
    · rfl
  · rintro sid ⟨key,x,hsession,hopen⟩ n hmem ⟨rfl,hne⟩
    obtain ⟨k,hindex⟩ := Option.ne_none_iff_exists'.mp hne
    obtain ⟨hs,hkey,-⟩ := hconsistent.session? hsession
    have hvalue := (howned.own hmem hindex).1
    rw [value_eq hs,hkey] at hvalue
    cases hvalue
    have hclosed := hdead _ hindex (sid,x) hsession
    rw [hopen] at hclosed
    cases hclosed

variable {responseId : String} {x : Session}

theorem registerPreviousResponseId_eq (hs : s.registry.heap.get? sid = some x) :
    s.registry.registerPreviousResponseId sid responseId =
      if s.refuses sid x responseId = true then s.registry
      else {s.registry with
        previousResponseIndex :=
          s.registry.previousResponseIndex.set (responseId,x.key.apiKeyId) x.key
        heap := s.registry.heap.set sid
          {x with previousResponseIds := x.previousResponseIds.insert responseId}} := by
  simp only [registerPreviousResponseId,hs]
  rfl

theorem aliases_frame {L : ℕ → Prop} {f : Session → Session} {turnStates : Dict AliasKey ℕ}
    (hf : ∀ x, (f x).key = x.key ∧ (f x).previousResponseIds = x.previousResponseIds) :
    NameIndex.Change L s.responseNames
      (responseNames ⟨(s.registry.modify sid f).registerAliases sid,turnStates,s.responses⟩) := by
  cases hs : s.registry.heap.get? sid with
  | none =>
    rw [modify_missing f hs]
    exact .refl _
  | some x =>
    rw [modify_registerAliases hs (hf x).1]
    exact change_set hs rfl (hf x).1 (hf x).2

theorem response_change {L : ℕ → Prop}
    (halone : s.Alone Session.previousResponseIds sid responseId) :
    let t := Registrars.mk (s.registry.registerPreviousResponseId sid responseId) s.turnStates
      (s.responsesAfter (.registerPreviousResponseId sid responseId))
    NameIndex.Change L s.turnStateNames t.turnStateNames ∧
      NameIndex.Change L s.responseNames t.responseNames := by
  cases hs : s.registry.heap.get? sid with
  | none =>
    simp only [responsesAfter,registerPreviousResponseId,hs]
    exact ⟨.refl _,.refl _⟩
  | some x =>
    simp only [responsesAfter,hs]
    rw [registerPreviousResponseId_eq hs]
    split_ifs
    · exact ⟨.refl _,.refl _⟩
    · refine ⟨change_set hs rfl rfl rfl,change_register [responseId] hs rfl rfl ?_ ?_ ?_ ?_⟩
      · intro a ha
        rcases List.mem_insert_iff.mp ha with rfl | hold
        · exact .inr (List.mem_singleton_self _)
        · exact .inl hold
      · intro a ha
        have hsame : a = (responseId,x.key.apiKeyId) := List.mem_singleton.mp ha
        exact ⟨by rw [Dict.get?_set,if_pos hsame],by rw [Dict.get?_set,if_pos hsame]⟩
      · intro a ha
        have hother : a ≠ (responseId,x.key.apiKeyId) :=
          fun heq => ha (heq ▸ List.mem_singleton_self _)
        exact ⟨by rw [Dict.get?_set,if_neg hother],by rw [Dict.get?_set,if_neg hother]⟩
      · intro a ha j z hz hscope hmem
        rw [List.mem_singleton.mp ha] at hmem
        exact halone x hs (j,z) (Dict.get?_eq_some.mp hz) hscope hmem

/-- What an operation does to the two indexes. -/
theorem names_change (h : s.Inv) (hunshared : s.Unshared op)
    (hstep : Registrars.step env s op = some t) :
    NameIndex.Change t.Live s.turnStateNames t.turnStateNames ∧
      NameIndex.Change t.Live s.responseNames t.responseNames := by
  obtain ⟨r,hr,rfl⟩ := Option.map_eq_some_iff.mp hstep
  cases op with
  | create sid x =>
    simp only [operate] at hr
    split_ifs at hr with hnew
    cases hr
    exact ⟨change_create rfl hnew.2.1,change_create rfl hnew.2.2⟩
  | store key sid =>
    simp only [operate] at hr
    split_ifs at hr
    cases hr
    exact ⟨.refl _,.refl _⟩
  | update sid u =>
    cases hr
    exact ⟨change_of_holding (holding_modify fun _ => ⟨rfl,rfl⟩) fun _ => by rw [indexes_modify.1],
      change_of_holding (holding_modify fun _ => ⟨rfl,rfl⟩) fun _ => by rw [indexes_modify.2]⟩
  | registerTurnState sid turnState =>
    cases hr
    simp only [turnStatesAfter,registerTurnState]
    cases hs : s.registry.heap.get? sid with
    | none =>
      simp only [Option.any_none,noteAliases,hs]
      exact ⟨.refl _,.refl _⟩
    | some x =>
      simp only [Option.any_some]
      split_ifs
      · exact ⟨.refl _,.refl _⟩
      · exact ⟨aliases_change h.turnStatesOwned hunshared fun _ => ⟨rfl,rfl⟩,
          aliases_frame fun _ => ⟨rfl,rfl⟩⟩
  | promote sid turnState =>
    cases hr
    exact ⟨aliases_change h.turnStatesOwned hunshared fun _ => ⟨rfl,rfl⟩,
      aliases_frame fun _ => ⟨rfl,rfl⟩⟩
  | registerPreviousResponseId sid responseId =>
    cases hr
    exact response_change hunshared
  | unregisterTurnStates sid =>
    cases hr
    simp only [unregisterTurnStates]
    split
    · rename_i x hs
      exact ⟨change_release hs rfl rfl,change_set hs rfl rfl rfl⟩
    · exact ⟨.refl _,.refl _⟩
  | unregisterPreviousResponseIds sid =>
    cases hr
    simp only [unregisterPreviousResponseIds]
    split
    · rename_i x hs
      exact ⟨change_set hs rfl rfl rfl,change_release hs rfl rfl⟩
    · exact ⟨.refl _,.refl _⟩
  | forgetTurnState a =>
    cases hr
    exact ⟨change_forget h.consistent h.turnStatesOwned hunshared,.refl _⟩
  | forgetPreviousResponse a =>
    cases hr
    exact ⟨.refl _,change_forget h.consistent h.responsesOwned hunshared⟩
  | pop =>
    cases hr
    exact ⟨.refl _,.refl _⟩
  | closeAll =>
    cases hr
    refine ⟨.refl _,.drops (D := fun _ => True) ⟨fun _ _ hn => ⟨hn,rfl⟩,fun _ _ => rfl,
      fun _ h => absurd trivial h,fun _ => rfl⟩ ?_⟩
    rintro p ⟨key,x,hsession,-⟩
    cases hsession

end Registrars

end CodexLb.Bridge
