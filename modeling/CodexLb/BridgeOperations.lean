import CodexLb.BridgeMoves
import CodexLb.BridgeSlotRuns

/-!
# The operations on the registry

What the calls, the session tasks and the closes do to the registry, as single
operations: a session is made, stored under its key, updated, taken out of the
map; an alias or a response id is registered; a session is promoted; an index
entry that leads nowhere is forgotten; a session gives its aliases or its ids
up. Every step of the calls is a sequence of operations.

`Registrars` records beside the registry which session registered an alias or a
response id last.
-/
namespace CodexLb.Bridge
open Runs Registry

inductive Operation where
  | create (sid : ℕ) (s : Session)
  | store (key : SessionKey) (sid : ℕ)
  | update (sid : ℕ) (u : SessionUpdate)
  | registerTurnState (sid : ℕ) (turnState : String)
  | registerPreviousResponseId (sid : ℕ) (responseId : String)
  | promote (sid : ℕ) (turnState : String)
  | forgetTurnState (a : AliasKey)
  | forgetPreviousResponse (a : AliasKey)
  | pop (key : SessionKey)
  | unregisterTurnStates (sid : ℕ)
  | unregisterPreviousResponseIds (sid : ℕ)
  | closeAll

/-- A new session lists nothing, and a session is stored under its own key. -/
def Registry.operate (env : Env) (r : Registry) : Operation → Option Registry
  | .create sid s =>
    if r.heap.get? sid = none ∧ s.downstreamTurnStateAliases = [] ∧ s.previousResponseIds = [] then
      some {r with heap := r.heap.set sid s}
    else none
  | .store key sid => if r.keyOf sid = some key then some (r.put key sid) else none
  | .update sid u => some (r.modify sid (·.apply u))
  | .registerTurnState sid turnState => some (r.registerTurnState sid turnState)
  | .registerPreviousResponseId sid responseId => some (r.registerPreviousResponseId sid responseId)
  | .promote sid turnState => some (promoteAndIndex env r sid turnState)
  | .forgetTurnState a => some (r.popTurnState a)
  | .forgetPreviousResponse a => some (r.popPreviousResponse a)
  | .pop key => some (r.pop key)
  | .unregisterTurnStates sid => some (r.unregisterTurnStates sid)
  | .unregisterPreviousResponseIds sid => some (r.unregisterPreviousResponseIds sid)
  | .closeAll => some {r with sessions := Dict.empty,previousResponseIndex := Dict.empty}

def aliasKeys (apiKeyId : Option String) (as : List String) : List AliasKey :=
  as.map fun a => (a,apiKeyId)

/-- The registry, and who registered each alias and each response id last. -/
structure Registrars where
  registry : Registry
  turnStates : Dict AliasKey ℕ
  responses : Dict AliasKey ℕ

namespace Registrars

def empty : Registrars := ⟨.empty,Dict.empty,Dict.empty⟩

def noteAliases (s : Registrars) (sid : ℕ) (turnState : String) : Dict AliasKey ℕ :=
  match s.registry.heap.get? sid with
  | some x => (aliasKeys x.key.apiKeyId (addAlias x turnState).downstreamTurnStateAliases).foldl
      (fun d a => d.set a sid) s.turnStates
  | none => s.turnStates

def turnStatesAfter (s : Registrars) : Operation → Dict AliasKey ℕ
  | .registerTurnState sid turnState =>
    if (s.registry.heap.get? sid).any (·.closed) then s.turnStates else s.noteAliases sid turnState
  | .promote sid turnState => s.noteAliases sid turnState
  | _ => s.turnStates

/-- The session does not take response ids any more. -/
def refuses (s : Registrars) (sid : ℕ) (x : Session) (responseId : String) : Bool :=
  responseId = "" || x.closed ||
    (x.retireAfterDrain && decide (s.registry.sessions.get? x.key ≠ some sid))

def responsesAfter (s : Registrars) : Operation → Dict AliasKey ℕ
  | .registerPreviousResponseId sid responseId =>
    match s.registry.heap.get? sid with
    | some x =>
      if s.refuses sid x responseId then s.responses
      else s.responses.set (responseId,x.key.apiKeyId) sid
    | none => s.responses
  | _ => s.responses

def step (env : Env) (s : Registrars) (op : Operation) : Option Registrars :=
  (s.registry.operate env op).map fun r => ⟨r,s.turnStatesAfter op,s.responsesAfter op⟩

end Registrars

def Operates (env : Env) (r q : Registry) : Prop :=
  ∃ ops, Run (Steps (Registry.operate env)) r ops q

namespace Operates
variable {env : Env} {r q : Registry}

theorem refl (r : Registry) : Operates env r r := ⟨[],.done r⟩

theorem trans {p : Registry} (h : Operates env r q) (k : Operates env q p) : Operates env r p := by
  obtain ⟨ops,hops⟩ := h
  obtain ⟨ops',hops'⟩ := k
  exact ⟨ops++ops',hops.append hops'⟩

theorem single (op : Operation) (h : r.operate env op = some q) : Operates env r q :=
  ⟨[op],Run.single h⟩

theorem then_single {p : Registry} (h : Operates env r q) (op : Operation)
    (hop : q.operate env op = some p) : Operates env r p := h.trans (single op hop)

theorem modify (sid : ℕ) (f : Session → Session) (update : Session → SessionUpdate)
    (hf : ∀ s, f s = s.apply (update s)) : Operates env r (r.modify sid f) := by
  cases hs : r.heap.get? sid with
  | none =>
    rw [Registry.modify,hs]
    exact refl r
  | some s =>
    refine single (.update sid (update s)) ?_
    simp only [Registry.operate,Registry.modify,hs,hf]

theorem markClosed (sid : ℕ) : Operates env r (r.markClosed sid) :=
  modify sid _ (fun s => ⟨s.account,true,s.retireAfterDrain,s.visibleRequests,s.pendingCount,
    s.lastUsedAt⟩) fun _ => rfl

theorem touch (sid : ℕ) (now : ℤ) :
    Operates env r (r.modify sid fun s => {s with lastUsedAt := now}) :=
  modify sid _ (fun s => ⟨s.account,s.closed,s.retireAfterDrain,s.visibleRequests,s.pendingCount,
    now⟩) fun _ => rfl

theorem closeStage (sid : ℕ) (stage : CloseStage) :
    Operates env r (World.closeStage r sid stage) := by
  cases stage with
  | turnStates => exact (markClosed sid).then_single (.unregisterTurnStates sid) rfl
  | previousResponseIds => exact single (.unregisterPreviousResponseIds sid) rfl
  | teardown => exact refl r

theorem closeLocked (sid : ℕ) : Operates env r (r.closeLocked sid) :=
  (closeStage sid .turnStates).trans (closeStage sid .previousResponseIds)

theorem pruneKey (key : SessionKey) : Operates env r (r.pruneKey key) := by
  unfold Registry.pruneKey
  split
  · exact (single (.pop key) rfl).trans (closeLocked _)
  · exact refl r

theorem popIfSame (key : SessionKey) (sid : ℕ) : Operates env r (r.popIfSame key sid) := by
  unfold Registry.popIfSame
  split_ifs
  · exact single (.pop key) rfl
  · exact refl r

theorem retire (key : SessionKey) (sid : ℕ) :
    Operates env r ((r.pop key).unregisterTurnStates sid) :=
  (single (.pop key) rfl).then_single (.unregisterTurnStates sid) rfl

theorem resolveAlias (c : Call) (key : SessionKey) :
    Operates env r (Bridge.resolveAlias env c key r).registry := by
  have halias := resolveAlias_aliasStep env c key r
  generalize Bridge.resolveAlias env c key r = out at halias
  cases halias with
  | keeps => exact refl r
  | @follows turnState _ sid | @previous turnState _ _ sid =>
    exact single (.promote sid turnState) rfl
  | forgets => exact single (.forgetTurnState _) rfl
  | without _ _ _ _ hq =>
    rcases hq with rfl | ⟨a,rfl⟩
    · exact refl _
    · exact single (.forgetPreviousResponse a) rfl

theorem selectExisting (c : Call) (now : ℤ) (l : Locals) :
    Operates env r (Bridge.selectExisting env c now l r).1 := by
  unfold Bridge.selectExisting
  split
  · exact refl r
  · split_ifs
    · exact touch _ now
    · exact (retire _ _).trans (markClosed _)
    · exact retire _ _
    · exact (retire _ _).trans (markClosed _)
    · exact refl r

theorem findInflight (c : Call) (now : ℤ) (l : Locals) (slots : Dict SessionKey ℕ) :
    Operates env r (Bridge.findInflight env c now l slots r).1 := by
  have hdiscard : Operates env r (discardExisting l r).1 := by
    unfold discardExisting
    split
    · exact refl r
    · exact single (.pop _) rfl
  refine hdiscard.trans ?_
  have hstep := lookupPrevious_previousStep env c now
    {(discardExisting l r).2 with inflightFuture := slots.get? (discardExisting l r).2.key} slots
    (discardExisting l r).1
  rw [Bridge.findInflight]
  generalize lookupPrevious env c now _ slots (discardExisting l r).1 = out at hstep ⊢
  cases hstep with
  | continues => exact refl _
  | forgets => exact single (.forgetPreviousResponse _) rfl
  | @finds _ _ _ _ q _ _ _ _ _ _ hq _ hnext =>
    have hpromoted : Operates env (discardExisting l r).1 q := by
      rcases hq with rfl | ⟨turnState,rfl⟩
      · exact refl _
      · exact single (.promote _ turnState) rfl
    rcases hnext with ⟨-,rfl,-⟩ | ⟨-,rfl,-⟩
    · exact hpromoted.trans (touch _ now)
    · exact hpromoted

variable {w t : World} {i : ℕ} {run : Running} {e : Event} {p q : Phase}

theorem callStep (hstep : CallStep env w i run e p q t) (hw : Coherent w)
    (hrun : w.calls.get? i = some run) (hp : run.phase = p) :
    Operates env w.registry t.registry := by
  have hknows := hw.knows i run hrun
  rw [hp] at hknows
  cases hstep with
  | @again _ key _ _ _ halias | @acquired _ key _ _ _ halias =>
    have hops : Operates env w.registry (Bridge.resolveAlias env run.call key w.registry).registry :=
      resolveAlias run.call key
    rw [halias] at hops
    exact hops
  | prune => exact pruneKey _
  | select => exact selectExisting _ _ _
  | owner => exact findInflight _ _ _ _
  | evicts => exact single (.pop _) rfl
  | close => exact closeStage _ _
  | joins => exact touch _ _
  | drops => exact (popIfSame _ _).then_single (.unregisterTurnStates _) rfl
  | dropCloses =>
    exact ((popIfSame _ _).then_single (.unregisterTurnStates _) rfl).trans (markClosed _)
  | @created l account now =>
    have hfresh : w.registry.heap.get? i = none := by
      cases hs : w.registry.heap.get? i with
      | none => rfl
      | some s =>
        obtain ⟨run',hrun',hcreated⟩ := hw.sessionFresh i s.key (by rw [keyOf,hs]; rfl)
        rw [hrun] at hrun'
        cases hrun'
        rw [hp] at hcreated
        cases hcreated
    exact single (.create i (newSession run.call l.key account now)) (if_pos ⟨hfresh,rfl,rfl⟩)
  | registered => exact single (.store _ i) (if_pos hknows.2)
  | unwinds | unwindCloses =>
    rw [World.rest,(completeSlot_frame w _ _).1]
    exact refl _
  | _ => exact refl _

theorem ambientStep (hstep : AmbientStep env w e t) : Operates env w.registry t.registry := by
  cases hstep with
  | session => exact single (.update _ _) rfl
  | registerTurnState => exact single (.registerTurnState _ _) rfl
  | registerPreviousResponseId => exact single (.registerPreviousResponseId _ _) rfl
  | closeSession => exact closeStage _ _
  | reset => exact popIfSame _ _
  | closeAll => exact single .closeAll rfl

end Operates

variable {env : Env} {t : World}

theorem step_operates {w : World} {e : Event} (hw : Coherent w) (ht : step env w e = some t) :
    Operates env w.registry t.registry := by
  rcases step_moves ht with ⟨i,c,-,-,rfl⟩ | ⟨i,run,q,hrun,hstep⟩ | hstep
  · exact .refl _
  · exact .callStep hstep hw hrun rfl
  · exact .ambientStep hstep

theorem Registrars.run_of_operates {r q : Registry} (h : Operates env r q) (s : Registrars)
    (hs : s.registry = r) :
    ∃ ops t, Run (Steps (Registrars.step env)) s ops t ∧ t.registry = q := by
  obtain ⟨ops,hops⟩ := h
  refine ⟨ops,?_⟩
  induction hops generalizing s with
  | done r => exact ⟨s,.done s,hs⟩
  | @step r u v op ops hop _ ih =>
    obtain ⟨t,ht,hv⟩ := ih ⟨u,s.turnStatesAfter op,s.responsesAfter op⟩ rfl
    refine ⟨t,.step ?_ ht,hv⟩
    rw [Steps,Registrars.step,hs,show r.operate env op = some u from hop]
    rfl

/-- The registry of every run of calls is one that operations lead to. -/
theorem registrars_of_run {as : List Event} (h : Run (Steps (step env)) World.empty as t) :
    ∃ ops s, Run (Steps (Registrars.step env)) Registrars.empty ops s ∧ s.registry = t.registry := by
  have hboth : Coherent t ∧ Operates env World.empty.registry t.registry := by
    refine h.invariant (I := fun w => Coherent w ∧ Operates env World.empty.registry w.registry) ?_
      ⟨coherent_empty,.refl _⟩
    rintro w e u ⟨hw,hops⟩ hstep
    exact ⟨step_coherent hw hstep,hops.trans (step_operates hw hstep)⟩
  exact Registrars.run_of_operates hboth.2 .empty rfl

theorem created_session_operates :
    ∃ ops s, Run (Steps (Registrars.step ringEnv)) Registrars.empty ops s ∧
      s.registry.keyOf 0 = some (.make "session_header" "s" none) := by
  obtain ⟨t,hrun,hkey⟩ := exists_steps_of_exec (f := step ringEnv) (s := World.empty)
    (l := creationEvents)
    (p := fun t => t.registry.keyOf 0 = some (.make "session_header" "s" none)) (by decide)
  obtain ⟨ops,s,hops,hs⟩ := registrars_of_run hrun
  exact ⟨ops,s,hops,by rw [hs,hkey]⟩

end CodexLb.Bridge
