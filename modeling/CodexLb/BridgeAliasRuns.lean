import CodexLb.BridgeAliases

/-!
# The alias indexes over sequences of operations

A session that is stored and open after an operation was mapped before it, and
the operation keeps it mapped. So both indexes stay exact as long as names are
not shared.
-/
namespace CodexLb.Bridge
open Runs Registry

namespace Registrars
variable {env : Env} {s t : Registrars} {op : Operation} {sid : ℕ}

theorem Live.of (h : t.Live sid)
    (hsessions : ∀ key, t.registry.sessions.get? key = some sid → s.registry.sessions.get? key =
      some sid)
    (hclosed : (t.registry.heap.get? sid).map Session.closed = (s.registry.heap.get? sid).map
      Session.closed) : s.Live sid := by
  obtain ⟨key,x,hsession,hopen⟩ := h
  obtain ⟨j,hj,hmap⟩ := Option.bind_eq_some_iff.mp hsession
  obtain ⟨_,hx,heq⟩ := Option.map_eq_some_iff.mp hmap
  cases heq
  rw [hx,Option.map_some] at hclosed
  obtain ⟨y,hy,hsame⟩ := Option.map_eq_some_iff.mp hclosed.symm
  refine ⟨key,y,?_,hsame.trans hopen⟩
  rw [session?,hsessions key hj,Option.bind_some,hy]
  rfl

theorem Inv.mapped_of_live (h : s.Inv) (hlive : s.Live sid) :
    s.turnStateNames.Mapped sid ∧ s.responseNames.Mapped sid :=
  ⟨h.turnStatesMapped sid hlive,h.responsesMapped sid hlive⟩

theorem Inv.mapped_of_listed (h : s.Inv) (hlisted : ∀ x ∈ s.registry.heap.get? sid,s.listed x = true) :
    s.turnStateNames.Mapped sid ∧ s.responseNames.Mapped sid := by
  constructor
  · refine h.turnStatesOwned.mapped fun a ha => ?_
    obtain ⟨x,hx,hmem,hscope⟩ := mem_names.mp ha
    have hall := List.all_eq_true.mp (Bool.and_eq_true_iff.mp (hlisted x hx)).1 a.1 hmem
    rw [← hscope] at hall
    exact Option.isSome_iff_ne_none.mp hall
  · refine h.responsesOwned.mapped fun a ha => ?_
    obtain ⟨x,hx,hmem,hscope⟩ := mem_names.mp ha
    have hall := List.all_eq_true.mp (Bool.and_eq_true_iff.mp (hlisted x hx)).2 a.1 hmem
    rw [← hscope] at hall
    exact Option.isSome_iff_ne_none.mp hall

end Registrars

structure SameLive (r q : Registry) : Prop where
  sessions : q.sessions = r.sessions
  closed : ∀ j, (q.heap.get? j).map Session.closed = (r.heap.get? j).map Session.closed

namespace SameLive
variable {r q : Registry} {sid : ℕ}

theorem refl (r : Registry) : SameLive r r := ⟨rfl,fun _ => rfl⟩

theorem set {x y : Session} (hs : r.heap.get? sid = some x) (hsessions : q.sessions = r.sessions)
    (hheap : q.heap = r.heap.set sid y) (hclosed : y.closed = x.closed) : SameLive r q := by
  refine ⟨hsessions,fun j => ?_⟩
  rw [hheap]
  exact map_get?_set Session.closed hs y hclosed j

theorem registerAliases (f : Session → Session)
    (hf : ∀ x, (f x).key = x.key ∧ (f x).closed = x.closed) :
    SameLive r ((r.modify sid f).registerAliases sid) := by
  cases hs : r.heap.get? sid with
  | none =>
    rw [modify_missing f hs]
    exact refl r
  | some x =>
    rw [modify_registerAliases hs (hf x).1]
    exact set hs rfl rfl (hf x).2

theorem registerTurnState (turnState : String) : SameLive r (r.registerTurnState sid turnState) := by
  unfold Registry.registerTurnState
  split
  · split_ifs
    · exact refl r
    · exact registerAliases _ fun _ => ⟨rfl,rfl⟩
  · exact refl r

theorem registerPreviousResponseId (responseId : String) :
    SameLive r (r.registerPreviousResponseId sid responseId) := by
  unfold Registry.registerPreviousResponseId
  split
  · rename_i x hs
    split_ifs
    · exact refl r
    · exact set hs rfl rfl rfl
  · exact refl r

theorem unregisterTurnStates : SameLive r (r.unregisterTurnStates sid) := by
  unfold Registry.unregisterTurnStates
  split
  · rename_i x hs
    exact set hs rfl rfl rfl
  · exact refl r

theorem unregisterPreviousResponseIds : SameLive r (r.unregisterPreviousResponseIds sid) := by
  unfold Registry.unregisterPreviousResponseIds
  split
  · rename_i x hs
    exact set hs rfl rfl rfl
  · exact refl r

end SameLive

namespace Registrars
variable {env : Env} {s t : Registrars} {op : Operation} {sid : ℕ}

theorem Live.same (h : t.Live sid) (hsame : SameLive s.registry t.registry) : s.Live sid :=
  h.of (fun _ hk => hsame.sessions ▸ hk) (hsame.closed sid)

theorem Inv.mapped_before (h : s.Inv) (hunshared : s.Unshared op)
    (hstep : Registrars.step env s op = some t) (hlive : t.Live sid) :
    s.turnStateNames.Mapped sid ∧ s.responseNames.Mapped sid := by
  obtain ⟨r,hr,rfl⟩ := Option.map_eq_some_iff.mp hstep
  cases op with
  | create j x =>
    simp only [Registry.operate] at hr
    split_ifs at hr with hnew
    cases hr
    by_cases hj : sid = j
    · obtain ⟨key,y,hsession,-⟩ := hlive
      obtain ⟨k,hk,hmap⟩ := Option.bind_eq_some_iff.mp hsession
      obtain ⟨_,-,heq⟩ := Option.map_eq_some_iff.mp hmap
      cases heq
      have hkey := h.consistent.keyed key sid hk
      rw [keyOf,hj,hnew.1] at hkey
      cases hkey
    · refine h.mapped_of_live (hlive.of (fun _ hk => hk) ?_)
      simp only [Dict.get?_set,if_neg hj]
  | store key j =>
    simp only [Registry.operate] at hr
    split_ifs at hr
    cases hr
    by_cases hj : sid = j
    · exact h.mapped_of_listed (hj ▸ hunshared)
    · refine h.mapped_of_live (hlive.of (fun k hk => ?_) rfl)
      simp only [Registry.put,Dict.get?_set] at hk
      split_ifs at hk
      · exact absurd (Option.some.inj hk).symm hj
      · exact hk
  | update j u =>
    cases hr
    cases hs : s.registry.heap.get? j with
    | none =>
      have hsame : s.registry.modify j (·.apply u) = s.registry := by rw [Registry.modify,hs]
      simp only [hsame] at hlive
      exact h.mapped_of_live (hlive.of (fun _ hk => hk) rfl)
    | some x =>
      by_cases hreopened : sid = j ∧ x.closed = true ∧ u.closed = false
      · obtain ⟨rfl,hclosed,hopen⟩ := hreopened
        refine h.mapped_of_listed fun y hy => ?_
        cases hs.symm.trans hy
        exact hunshared x hs hclosed hopen
      · refine h.mapped_of_live ?_
        obtain ⟨key,y,hsession,hopen⟩ := hlive
        simp only [Registry.modify,hs] at hsession
        obtain ⟨k,hk,hmap⟩ := Option.bind_eq_some_iff.mp hsession
        obtain ⟨_,hy,heq⟩ := Option.map_eq_some_iff.mp hmap
        cases heq
        simp only [Dict.get?_set] at hy
        split_ifs at hy with hj
        · cases hy
          refine ⟨key,x,?_,?_⟩
          · rw [session?,hk,Option.bind_some,hj,hs]
            rfl
          · cases hx : x.closed with
            | false => rfl
            | true => exact absurd ⟨hj,hx,hopen⟩ hreopened
        · refine ⟨key,y,?_,hopen⟩
          rw [session?,hk,Option.bind_some,hy]
          rfl
  | registerTurnState j turnState =>
    cases hr
    exact h.mapped_of_live (hlive.same (SameLive.registerTurnState turnState))
  | promote j turnState =>
    cases hr
    exact h.mapped_of_live (hlive.same (SameLive.registerAliases _ fun _ => ⟨rfl,rfl⟩))
  | registerPreviousResponseId j responseId =>
    cases hr
    exact h.mapped_of_live (hlive.same (SameLive.registerPreviousResponseId responseId))
  | unregisterTurnStates j =>
    cases hr
    exact h.mapped_of_live (hlive.same SameLive.unregisterTurnStates)
  | unregisterPreviousResponseIds j =>
    cases hr
    exact h.mapped_of_live (hlive.same SameLive.unregisterPreviousResponseIds)
  | pop key =>
    cases hr
    refine h.mapped_of_live (hlive.of (fun k hk => ?_) rfl)
    simp only [Registry.pop,Dict.get?_pop] at hk
    split_ifs at hk
    exact hk
  | closeAll =>
    cases hr
    obtain ⟨key,x,hsession,-⟩ := hlive
    cases hsession
  | forgetTurnState | forgetPreviousResponse =>
    cases hr
    exact h.mapped_of_live (hlive.of (fun _ hk => hk) rfl)

theorem operate_consistent (h : s.registry.Consistent)
    (hstep : Registrars.step env s op = some t) : t.registry.Consistent := by
  obtain ⟨r,hr,rfl⟩ := Option.map_eq_some_iff.mp hstep
  cases op with
  | create sid x =>
    simp only [Registry.operate] at hr
    split_ifs at hr with hnew
    cases hr
    refine ⟨fun k j hk => ?_,h.turnStates,h.previousResponses⟩
    have hkey := h.keyed k j hk
    have hj : j ≠ sid := by
      rintro rfl
      rw [keyOf,hnew.1] at hkey
      cases hkey
    rw [keyOf,Dict.get?_set,if_neg hj]
    exact hkey
  | store key sid =>
    simp only [Registry.operate] at hr
    split_ifs at hr with hkey
    cases hr
    exact h.put hkey
  | update sid u =>
    cases hr
    exact h.modify sid fun _ => rfl
  | registerTurnState sid turnState =>
    cases hr
    exact (sound_registerTurnState _ _ _).consistent h
  | registerPreviousResponseId sid responseId =>
    cases hr
    exact (sound_registerPreviousResponseId _ _ _).consistent h
  | promote sid turnState =>
    cases hr
    exact (sound_promoteAndIndex env _ _ _).consistent h
  | forgetTurnState a =>
    cases hr
    exact (sound_popTurnState _ _).consistent h
  | forgetPreviousResponse a =>
    cases hr
    exact (sound_popPreviousResponse _ _).consistent h
  | pop key =>
    cases hr
    exact (sound_pop _ _).consistent h
  | unregisterTurnStates sid =>
    cases hr
    exact (sound_unregisterTurnStates _ _).consistent h
  | unregisterPreviousResponseIds sid =>
    cases hr
    exact (sound_unregisterPreviousResponseIds _ _).consistent h
  | closeAll =>
    cases hr
    exact ⟨fun _ _ hk => Dict.not_mem_empty hk,h.turnStates,fun _ _ hk => Dict.not_mem_empty hk⟩

theorem Inv.step (h : s.Inv) (hunshared : s.Unshared op)
    (hstep : Registrars.step env s op = some t) : t.Inv := by
  obtain ⟨hturn,hresponse⟩ := names_change h hunshared hstep
  refine ⟨operate_consistent h.consistent hstep,hturn.owned h.turnStatesOwned,
    hresponse.owned h.responsesOwned,?_,?_⟩
  · intro sid hlive
    exact hturn.mapped h.turnStatesOwned hlive (h.mapped_before hunshared hstep hlive).1
  · intro sid hlive
    exact hresponse.mapped h.responsesOwned hlive (h.mapped_before hunshared hstep hlive).2

theorem inv_empty : Registrars.empty.Inv := by
  have howned : ∀ lists : Session → List String,
      (Registry.empty.nameIndex lists Dict.empty Dict.empty).Owned := by
    intro lists
    constructor
    · exact nofun
    · exact nofun
  refine ⟨⟨fun _ _ hk => Dict.not_mem_empty hk,fun _ _ hk => Dict.not_mem_empty hk,
    fun _ _ hk => Dict.not_mem_empty hk⟩,howned _,howned _,?_,?_⟩
  all_goals
    rintro sid ⟨key,x,hsession,-⟩
    cases hsession

theorem Inv.indexed (h : s.Inv) : s.Indexed := by
  constructor
  · intro key sid x hsession hopen a ha hlast
    obtain ⟨hs,-⟩ := h.consistent.session? hsession
    have hmem : (a,x.key.apiKeyId) ∈ s.turnStateNames.names sid := mem_names.mpr ⟨x,hs,ha,rfl⟩
    obtain ⟨v,hv,hindex⟩ := h.turnStatesMapped sid ⟨key,x,hsession,hopen⟩ _ hmem hlast
    rw [turnStateNames,value_eq hs] at hv
    cases hv
    exact hindex
  · intro key sid x hsession hopen a ha hlast
    obtain ⟨hs,-⟩ := h.consistent.session? hsession
    have hmem : (a,x.key.apiKeyId) ∈ s.responseNames.names sid := mem_names.mpr ⟨x,hs,ha,rfl⟩
    obtain ⟨v,hv,hindex⟩ := h.responsesMapped sid ⟨key,x,hsession,hopen⟩ _ hmem hlast
    rw [responseNames,value_eq hs] at hv
    cases hv
    exact hindex

theorem Inv.removesOwn (h : s.Inv) {x : Session} (hs : s.registry.heap.get? sid = some x) :
    s.RemovesOwn sid x := by
  constructor
  · intro a k hk hgone
    simp only [Registry.unregisterTurnStates,hs] at hgone
    obtain ⟨hvalue,hlast⟩ := (drops_release (q := {s.registry with
      heap := s.registry.heap.set sid {x with downstreamTurnStateAliases := []}}) hs rfl rfl).release_own
      h.turnStatesOwned hk hgone
    rw [value_eq hs] at hvalue
    exact ⟨(Option.some.inj hvalue).symm,hlast⟩
  · intro a k hk hgone
    simp only [Registry.unregisterPreviousResponseIds,hs] at hgone
    obtain ⟨hvalue,hlast⟩ := (drops_release (q := {s.registry with
      heap := s.registry.heap.set sid {x with previousResponseIds := []}}) hs rfl rfl).release_own
      h.responsesOwned hk hgone
    rw [value_eq hs] at hvalue
    exact ⟨(Option.some.inj hvalue).symm,hlast⟩

end Registrars

instance (s : Registrars) (lists : Session → List String) (sid : ℕ) (a : String) :
    Decidable (s.Alone lists sid a) := by
  unfold Registrars.Alone
  infer_instance

instance (s : Registrars) (index : Dict AliasKey SessionKey) (a : AliasKey) :
    Decidable (s.Dead index a) := by
  unfold Registrars.Dead
  infer_instance

instance (s : Registrars) (op : Operation) : Decidable (s.Unshared op) := by
  unfold Registrars.Unshared
  split <;> infer_instance

/-- In every sequence of operations that do not share names, live sessions are
found under the names they were the last to register, and a session that gives
its names up takes away only entries of its own. -/
theorem alias_indexes_exact (env : Env) (ops : List Operation) (s : Registrars)
    (h : Run (restrict (Steps (Registrars.step env)) Registrars.Unshared) Registrars.empty ops s) :
    s.Indexed ∧ ∀ sid x, s.registry.heap.get? sid = some x → s.RemovesOwn sid x := by
  have hinv : s.Inv :=
    h.invariant (fun _ _ _ hs hstep => hs.step hstep.1 hstep.2) Registrars.inv_empty
  exact ⟨hinv.indexed,fun _ _ hs => hinv.removesOwn hs⟩

def plainEnv : Env := ⟨id,id,"a",none,true,0⟩

def headerKey : SessionKey := .make "session_header" "s" none

def headerSession : Session := ⟨headerKey,⟨"acc",true⟩,false,false,false,0,0,60,false,[],[]⟩

def aliasedSession : Session := {headerSession with downstreamTurnStateAliases := ["t"]}

/-- Session 0 takes an alias and is taken out of the map, its replacement takes
the alias over. -/
def replacedOps : List Operation :=
  [.create 0 headerSession,.store headerKey 0,.registerTurnState 0 "t",.pop headerKey,
    .create 1 headerSession,.store headerKey 1,.registerTurnState 1 "t"]

/-- The same, when session 0 has been closed before. -/
def closedFirstOps : List Operation :=
  [.create 0 headerSession,.store headerKey 0,.registerTurnState 0 "t",
    .registerPreviousResponseId 0 "resp",.pop headerKey,.unregisterTurnStates 0,
    .unregisterPreviousResponseIds 0,.create 1 headerSession,.store headerKey 1,
    .registerTurnState 1 "t",.registerPreviousResponseId 1 "resp"]

theorem closed_session_leaves_alias :
    ∃ s, Run (restrict (Steps (Registrars.step plainEnv)) Registrars.Unshared) Registrars.empty
        closedFirstOps s ∧
      s.registry.turnStateIndex.get? ("t",none) = some headerKey ∧ s.Indexed ∧
      ∀ sid x, s.registry.heap.get? sid = some x → s.RemovesOwn sid x :=
  exists_run_with (fun s hrun hindex => ⟨hindex,alias_indexes_exact plainEnv _ s hrun⟩)
    (by decide +kernel)

/-- The late close of session 0 takes away the entry of its replacement, which is
live and was the last to register the alias. -/
theorem late_close_takes_alias :
    (∃ s, Run (Steps (Registrars.step plainEnv)) Registrars.empty replacedOps s ∧
      s.registry.heap.get? 0 = some aliasedSession ∧ ¬s.RemovesOwn 0 aliasedSession) ∧
    ∃ s, Run (Steps (Registrars.step plainEnv)) Registrars.empty
        (replacedOps++[.unregisterTurnStates 0]) s ∧ ¬s.Indexed := by
  constructor
  · refine exists_steps_with (p := fun s => s.registry.heap.get? 0 = some aliasedSession ∧
      s.registry.turnStateIndex.get? ("t",none) = some headerKey ∧
      (s.registry.unregisterTurnStates 0).turnStateIndex.get? ("t",none) = none ∧
      s.turnStates.get? ("t",none) = some 1) ?_ (by decide +kernel)
    rintro s - ⟨hs,hbefore,hafter,hlast⟩
    refine ⟨hs,fun h => ?_⟩
    have hown := (h.turnStates _ _ hbefore hafter).2
    rw [hlast] at hown
    cases hown
  · refine exists_steps_with (p := fun s =>
      s.registry.session? headerKey = some (1,aliasedSession) ∧
      s.turnStates.get? ("t",none) = some 1 ∧
      s.registry.turnStateIndex.get? ("t",none) = none) ?_ (by decide +kernel)
    rintro s - ⟨hsession,hlast,hindex⟩ h
    have hmapped := h.turnStates headerKey 1 aliasedSession hsession rfl "t"
      (List.mem_singleton_self _) hlast
    rw [show s.registry.turnStateIndex.get? ("t",aliasedSession.key.apiKeyId) = none from hindex]
      at hmapped
    cases hmapped

end CodexLb.Bridge
