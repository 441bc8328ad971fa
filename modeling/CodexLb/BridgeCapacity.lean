import CodexLb.BridgeLocated

/-!
# The capacity of the registry

A creation that has reserved its slot is the only one for its key, and the
sessions stored and the slots reserved are no more than the setting allows. The
invariant says which calls hold a slot, and that nothing is stored under a key
whose slot is held.

It holds as long as two things do not happen. A call whose generated turn state
has no alias here goes on to create a session without a slot. And
`close_all_http_bridge_sessions` clears the slots of the creations that are
running.
-/
namespace CodexLb.Bridge
open Runs Registry

/-- The call creates a session for the key, from the start of the creation until
the session is stored or the slot is given back. -/
def Phase.creation : Phase → Option SessionKey
  | .creating l | .claiming l | .registering l | .failing l _ _ => some l.key
  | _ => none

def World.creations (w : World) : List (ℕ × Running) :=
  w.calls.rows.filter fun q => q.2.phase.creation.isSome

/-- A generated turn state whose alias is not here leads to a session of its own
without a slot, if nothing else is known about it. -/
def Call.rebindsLocally (c : Call) : Bool :=
  c.incomingTurnState.any startsWithHttpTurn && !c.forwardedAffinity &&
    c.incomingSessionKey.isNone && c.durableLookup.isNone && c.allowForwardToOwner

/-- The steps that reserve: the setting is constant, a call that could rebind
finds the alias of its turn state, and nothing is created while everything is
closed. -/
def Reserving (maxSessions : ℕ) (w : World) : Event → Prop
  | .call _ c => c.maxSessions = maxSessions
  | .acquire i _ =>
    ∀ run ∈ w.calls.get? i,run.call.rebindsLocally = true →
      ∀ turnState ∈ run.call.incomingTurnState,
        (w.registry.turnStateIndex.get? (turnState,run.call.apiKeyId)).isSome = true
  | .closeAll => w.inflight.rows = []
  | _ => True

instance (maxSessions : ℕ) (w : World) (e : Event) : Decidable (Reserving maxSessions w e) := by
  unfold Reserving
  split <;> infer_instance

section Held
variable (sessions inflight : Dict SessionKey ℕ) (c : Call) (i : ℕ)

/-- A missing alias ends in an error or at the durable session. -/
def Locals.Anchored (l : Locals) : Prop :=
  l.missingTurnStateAlias = true → c.durableLookup ≠ none ∨
    c.incomingTurnState.any startsWithHttpTurn = true ∧ c.allowForwardToOwner = false

/-- The call holds the slot of the key, and no session is stored under it. -/
def Locals.Held (l : Locals) : Prop :=
  inflight.get? l.key = some i ∧ sessions.get? l.key = none

def Locals.creates (l : Locals) : Prop :=
  l.sessionToReturnAfterClose = none ∧ l.ownerForward = none ∧ l.continuityError = none ∧
    l.capacityWaitFuture = none ∧ (l.inflightFuture = none ∨ l.ownsCreation = true)

def Phase.Reserved : Phase → Prop
  | .scanning l _ _ _ | .pruning l _ _ | .owner l | .refreshing l _ => l.Anchored c
  | .evicting l | .weighing l _ _ => l.sessionToReturnAfterClose = none → sessions.get? l.key = none
  | .closing l _ _ => l.creates → l.Held sessions inflight i
  | .creating l | .claiming l | .registering l | .failing l _ _ => l.Held sessions inflight i
  | _ => True

end Held

structure Reserved (maxSessions : ℕ) (w : World) : Prop where
  constant : ∀ (i : ℕ) (run : Running), w.calls.get? i = some run →
    run.call.maxSessions = maxSessions
  room : w.registry.sessions.rows.length+w.inflight.rows.length ≤ maxSessions
  held : ∀ (i : ℕ) (run : Running), w.calls.get? i = some run →
    run.phase.Reserved w.registry.sessions w.inflight run.call i

section Stages
variable {env : Env} {c : Call} {l : Locals} {r q : Registry} {i : ℕ}
variable {sessions inflight : Dict SessionKey ℕ}

theorem resolveAlias_anchored {key : SessionKey}
    (hsafe : c.rebindsLocally = true → ∀ turnState ∈ c.incomingTurnState,
      (r.turnStateIndex.get? (turnState,c.apiKeyId)).isSome = true)
    (hres : resolveAlias env c key r = .proceed q l) : l.Anchored c := by
  have halias := resolveAlias_aliasStep env c key r
  rw [hres] at halias
  generalize hout : AliasResult.proceed q l = out at halias
  cases halias with
  | keeps | follows | forgets =>
    cases hout
    exact nofun
  | previous => cases hout
  | without hturn hown hgenerated hindex _ _ hsession =>
    cases hout
    intro hmissing
    by_contra hnone
    push Not at hnone
    have hforward := hnone.2 (by rw [hturn]; exact hgenerated)
    have hrebinds : c.rebindsLocally = true := by
      simp [Call.rebindsLocally,hturn,hgenerated,hown,hsession hmissing,hnone.1,hforward]
    have hknown := hsafe hrebinds _ hturn
    rw [hindex] at hknown
    cases hknown

variable {now : ℤ}

section
variable (hl : l.Anchored c)
include hl

theorem scanFrom_reserved {rows : List (SessionKey × ℕ)} {stale : List SessionKey} :
    (scanFrom r l now rows stale).Reserved sessions inflight c i := by
  rcases scanFrom_cases r l now rows stale with ⟨row,rest,keys,hscan⟩ | ⟨keys,hscan⟩
  · rw [hscan]
    exact hl
  · rw [hscan]
    exact hl

theorem selectExisting_reserved :
    (selectExisting env c now l r).2.Reserved sessions inflight c i := by
  unfold selectExisting
  split
  · exact hl
  · split_ifs
    · trivial
    · exact hl
    · exact hl
    · exact hl
    · exact hl

/-- A call comes to count the capacity, or has an answer that is not a session
of its own. -/
theorem continuityOrCapacity_reserved (howns : l.ownsCreation = false)
    (hkey : l.inflightFuture = none → l.sessionToReturnAfterClose = none → sessions.get? l.key =
      none) : (continuityOrCapacity c l r).Reserved sessions inflight c i := by
  unfold continuityOrCapacity
  split_ifs with _ hmissing hfuture
  · intro hcreates
    cases hcreates.2.2.1
  · simp only [Bool.and_eq_true,decide_eq_true_eq] at hmissing
    rcases hl hmissing.1.1 with hdurable | ⟨hgenerated,hforward⟩
    · exact absurd hmissing.2 hdurable
    · split
      · rename_i hturn
        rw [hturn] at hgenerated
        cases hgenerated
      · rename_i turnState hturn
        rw [hturn] at hgenerated
        split_ifs with _ herror
        · intro hcreates
          cases hcreates.2.2.1
        · intro hcreates
          cases hcreates.2.2.1
        · exact absurd (by simpa [hforward] using hgenerated) herror
  · exact hkey hfuture
  · rintro ⟨-,-,-,-,hnone | hmine⟩
    · exact absurd hnone hfuture
    · rw [howns] at hmine
      cases hmine

variable {slots : Dict SessionKey ℕ} {now : ℤ}

theorem lookupPrevious_reserved (howns : l.ownsCreation = false)
    (hkey : r.sessions.get? l.key = none) :
    (lookupPrevious env c now l slots r).2.Reserved
      (lookupPrevious env c now l slots r).1.sessions inflight c i := by
  have hstep := lookupPrevious_previousStep env c now l slots r
  generalize lookupPrevious env c now l slots r = out at hstep ⊢
  cases hstep with
  | continues | forgets => exact continuityOrCapacity_reserved hl howns fun _ _ => hkey
  | finds _ _ _ _ hfound hnext =>
    subst hfound
    rcases hnext with ⟨-,-,rfl⟩ | ⟨hfuture,-,rfl⟩
    · exact hl
    · exact continuityOrCapacity_reserved hl howns fun hnone => absurd hnone hfuture

theorem findInflight_reserved (howns : l.ownsCreation = false)
    (hkey : r.sessions.get? l.key = l.existing) :
    (findInflight env c now l slots r).2.Reserved (findInflight env c now l slots r).1.sessions
      inflight c i := by
  unfold findInflight discardExisting
  split
  · rename_i hnone
    apply lookupPrevious_reserved
    · exact hl
    · exact howns
    · exact hkey.trans hnone
  · apply lookupPrevious_reserved
    · exact hl
    · exact howns
    · exact get?_pop_self r l.key

end

theorem dispatch_reserved (hl : l.creates → l.Held sessions inflight i) :
    (dispatch r l).Reserved sessions inflight c i := by
  unfold dispatch
  split
  · trivial
  · trivial
  · trivial
  · rename_i hret hforward herror
    split
    · trivial
    · rename_i f hwait hfuture
      split_ifs with howns
      · exact hl ⟨hret,hforward,herror,hwait,.inr howns⟩
      · trivial
    · rename_i hwait hfuture
      exact hl ⟨hret,hforward,herror,hwait,.inl hfuture⟩

variable {p : Phase}

theorem closeStep_reserved {q : Phase} {sid : ℕ} {stage : CloseStage}
    (hclose : closeStep i p = some (sid,stage,q)) (hp : p.Reserved sessions inflight c i) :
    q.Reserved sessions inflight c i := by
  unfold closeStep at hclose
  split at hclose
  · cases hclose
    exact hp
  · cases hclose
    split <;> exact hp
  · cases hclose
    split <;> trivial
  · cases hclose
    split <;> trivial
  · cases hclose

theorem cancelTo_reserved {q : Phase} (hcancel : cancelTo p = some q)
    (hp : p.Reserved sessions inflight c i) : q.Reserved sessions inflight c i := by
  cases p with
  | creating l | claiming l | registering l =>
    cases hcancel
    exact hp
  | closing l todo stage =>
    cases todo <;> cases hcancel
    trivial
  | _ => cases hcancel <;> trivial

end Stages

theorem Phase.Reserved.carry {sessions inflight sessions' inflight' : Dict SessionKey ℕ} {c : Call}
    {j : ℕ} {p : Phase} (h : p.Reserved sessions inflight c j)
    (hlocked : p.locked = true → sessions' = sessions)
    (hheld : ∀ k, inflight.get? k = some j → sessions.get? k = none →
      inflight'.get? k = some j ∧ sessions'.get? k = none) : p.Reserved sessions' inflight' c j := by
  cases p with
  | scanning | pruning | owner | refreshing => exact h
  | evicting l | weighing l rows idle =>
    rw [hlocked rfl]
    exact h
  | closing l todo stage => exact fun hcreates => hheld l.key (h hcreates).1 (h hcreates).2
  | creating l | claiming l | registering l | failing l => exact hheld l.key h.1 h.2
  | _ => trivial

namespace Reserved
variable {env : Env} {maxSessions : ℕ} {w t : World} {i : ℕ} {run : Running} {e : Event}

variable {l : Locals} {k : SessionKey} {j : ℕ}

variable {state : FutureState}

theorem completeSlot_held (hl : l.Held w.registry.sessions w.inflight i) (hj : j ≠ i)
    (hk : w.inflight.get? k = some j) : (w.completeSlot l state).inflight.get? k = some j := by
  have hkey : k ≠ l.key := by
    rintro rfl
    rw [hl.1] at hk
    exact hj (Option.some.inj hk).symm
  unfold World.completeSlot
  split_ifs
  · simp only [Dict.get?_pop]
    rw [if_neg hkey]
    exact hk
  · exact hk

variable {p q : Phase}

theorem held_other (h : Reserved maxSessions w) (hw : Coherent w)
    (hrun : w.calls.get? i = some run) (hp : run.phase = p) (hstep : CallStep env w i run e p q t)
    (hj : j ≠ i) (hk : w.inflight.get? k = some j) (hfree : w.registry.sessions.get? k = none) :
    t.inflight.get? k = some j ∧ t.registry.sessions.get? k = none := by
  have hheld := h.held i run hrun
  rw [hp] at hheld
  have hregistry := hstep.registry hw hrun hp
  have hinflight : t.inflight.get? k = some j := by
    cases hstep with
    | @inserts l hroom =>
      have hvacant := hw.vacant i run l.key hrun (by rw [hp]; rfl)
      have hkey : k ≠ l.key := by
        rintro rfl
        rw [hvacant] at hk
        cases hk
      simp only [World.leave,World.insertSlot,Dict.get?_set,if_neg hkey]
      exact hk
    | registered | registeredLate | unwinds | unwindCloses => exact completeSlot_held hheld hj hk
    | _ => exact hk
  refine ⟨hinflight,?_⟩
  rcases hregistry with hsound | ⟨l,account,now,-,-,-,heq⟩ | ⟨l,hl,-,-,-,heq⟩
  · exact Dict.get?_none_of_sublist hsound.sessions hfree
  · rw [heq]
    exact hfree
  · subst hl
    rw [heq,Registry.put,Dict.get?_set,if_neg]
    · exact hfree
    · rintro rfl
      rw [hheld.1] at hk
      exact hj (Option.some.inj hk).symm

theorem held_own (h : Reserved maxSessions w) (hw : Coherent w) (hlocated : Located w)
    (hrun : w.calls.get? i = some run) (hp : run.phase = p) (hstep : CallStep env w i run e p q t)
    (hsafe : Reserving maxSessions w e) :
    q.Reserved t.registry.sessions t.inflight run.call i := by
  have hheld := h.held i run hrun
  have hknows := hw.knows i run hrun
  have hlocal := hlocated i run hrun
  rw [hp] at hheld hknows hlocal
  cases hstep with
  | acquired hfree halias => exact scanFrom_reserved (resolveAlias_anchored (hsafe run hrun) halias)
  | scan => exact scanFrom_reserved hheld
  | prune | weighs | weigh | created | claimed | createFails | claimFails => exact hheld
  | select => exact selectExisting_reserved hheld
  | owner hcheck =>
    apply findInflight_reserved
    · exact hheld
    · exact hknows.1.notOwner
    · exact hlocal
  | refreshed =>
    apply continuityOrCapacity_reserved
    · exact hheld
    · exact hknows.1.notOwner
    · simp
  | inserts hroom =>
    intro hcreates
    refine ⟨?_,hheld hcreates.1⟩
    simp only [World.leave,World.insertSlot,Dict.get?_set,if_true]
  | evicts =>
    exact fun hret => Dict.get?_none_of_sublist (sound_pop w.registry _).sessions (hheld hret)
  | noRoomWaits => exact fun hcreates => by cases hcreates.2.2.2.1
  | close hclose =>
    simp only [World.update,sessions_closeStage]
    exact closeStep_reserved hclose hheld
  | proceed => exact dispatch_reserved hheld
  | cancel hcancel => exact cancelTo_reserved hcancel hheld
  | _ => trivial

theorem completeSlot_length :
    (w.completeSlot l state).inflight.rows.length ≤ w.inflight.rows.length := by
  unfold World.completeSlot
  split_ifs
  · exact List.length_filter_le _ _
  · exact le_refl _

section
variable (h : Reserved maxSessions w)
include h

theorem room_registered (hheld : l.Held w.registry.sessions w.inflight i)
    (hslot : w.inflight.get? l.key = l.inflightFuture) (state : FutureState) :
    (w.registry.put l.key i).sessions.rows.length+
      (w.completeSlot l state).inflight.rows.length ≤ maxSessions := by
  have hroom := h.room
  have hset := Dict.length_set_le w.registry.sessions l.key i
  have hpop := Dict.length_pop_lt hheld.1
  simp only [Registry.put,World.completeSlot,if_pos hslot]
  omega

theorem room_step (hw : Coherent w) (hrun : w.calls.get? i = some run) (hp : run.phase = p)
    (hstep : CallStep env w i run e p q t) :
    t.registry.sessions.rows.length+t.inflight.rows.length ≤ maxSessions := by
  have hroom := h.room
  have hheld := h.held i run hrun
  rw [hp] at hheld
  rcases hstep.registry hw hrun hp with hsound | ⟨l,account,now,hl,-,-,heq⟩ | ⟨l,hl,-,-,hslot,heq⟩
  · have hsessions := hsound.sessions.length_le
    cases hstep with
    | @inserts l hfull =>
      have hset := Dict.length_set_le w.inflight l.key i
      have hcount := h.constant i run hrun
      simp only [World.full,decide_eq_false_iff_not,not_le] at hfull
      simp only [World.leave,World.insertSlot] at hsessions ⊢
      omega
    | registered | registeredLate | unwinds | unwindCloses =>
      exact (Nat.add_le_add hsessions (completeSlot_length)).trans hroom
    | _ => exact (Nat.add_le_add_right hsessions _).trans hroom
  · subst hl
    rw [heq]
    cases hstep <;> exact hroom
  · subst hl
    cases hstep with
    | registered => exact h.room_registered hheld hslot _
    | registeredLate _ hlate => exact absurd hslot hlate
    | close hclose => cases hclose
    | _ => exact hroom

theorem callStep (hw : Coherent w) (hlocated : Located w) (hrun : w.calls.get? i = some run)
    (hp : run.phase = p) (hstep : CallStep env w i run e p q t)
    (hsafe : Reserving maxSessions w e) : Reserved maxSessions t := by
  have hget : ∀ j, t.calls.get? j = if j = i then some {run with phase := q} else w.calls.get? j := by
    intro j
    rw [hstep.calls,Dict.get?_set]
  refine ⟨?_,h.room_step hw hrun hp hstep,?_⟩
  · intro j other hother
    rw [hget] at hother
    split_ifs at hother
    · cases hother
      exact h.constant i run hrun
    · exact h.constant j other hother
  · intro j other hother
    rw [hget] at hother
    split_ifs at hother with hj
    · cases hother
      have hown := h.held_own hw hlocated hrun hp hstep hsafe
      rwa [← hj] at hown
    · exact (h.held j other hother).carry
        (hstep.sessions_other hw hrun hp hother hj)
        fun k hk hfree => h.held_other hw hrun hp hstep hj hk hfree

theorem ambientStep (hw : Coherent w) (hstep : AmbientStep env w e t)
    (hsafe : Reserving maxSessions w e) : Reserved maxSessions t := by
  have hsub := hstep.sessions.1
  have hinflight : t.inflight.rows.Sublist w.inflight.rows ∧
      ∀ k j, w.inflight.get? k = some j → t.inflight.get? k = some j := by
    cases hstep with
    | closeAll =>
      refine ⟨List.nil_sublist _,?_⟩
      intro k j hk
      rw [Dict.get?_eq_some,show w.inflight.rows = [] from hsafe] at hk
      cases hk
    | _ => exact ⟨.refl _,fun _ _ hk => hk⟩
  refine ⟨?_,(Nat.add_le_add hsub.length_le hinflight.1.length_le).trans h.room,?_⟩
  · rw [hstep.calls]
    exact h.constant
  · rw [hstep.calls]
    intro j other hother
    refine (h.held j other hother).carry ?_ ?_
    · exact hstep.sessions_other hw hother
    · exact fun k hk hnone => ⟨hinflight.2 k j hk,Dict.get?_none_of_sublist hsub hnone⟩

theorem call_reserved {c : Call} (hc : c.maxSessions = maxSessions) :
    Reserved maxSessions {w with calls := w.calls.set i ⟨c,.arriving⟩} := by
  refine ⟨?_,h.room,?_⟩
  · intro j other hother
    simp only [Dict.get?_set] at hother
    split_ifs at hother
    · cases hother
      exact hc
    · exact h.constant j other hother
  · intro j other hother
    simp only [Dict.get?_set] at hother
    split_ifs at hother
    · cases hother
      trivial
    · exact h.held j other hother

end

end Reserved

theorem step_reserved {env : Env} {maxSessions : ℕ} {w t : World} {e : Event}
    (h : Reserved maxSessions w) (hw : Coherent w) (hlocated : Located w)
    (hsafe : Reserving maxSessions w e) (ht : step env w e = some t) : Reserved maxSessions t := by
  rcases step_moves ht with ⟨i,c,rfl,-,rfl⟩ | ⟨i,run,q,hrun,hstep⟩ | hstep
  · exact h.call_reserved hsafe
  · exact h.callStep hw hlocated hrun rfl hstep hsafe
  · exact h.ambientStep hw hstep hsafe

namespace Reserved
variable {maxSessions : ℕ} {w : World} {i : ℕ} {run : Running} {k : SessionKey}

section
variable (h : Reserved maxSessions w)
include h

theorem creation_held (hrun : w.calls.get? i = some run) (hk : run.phase.creation = some k) :
    w.inflight.get? k = some i ∧ w.registry.sessions.get? k = none := by
  have hheld := h.held i run hrun
  cases hp : run.phase with
  | creating l | claiming l | registering l | failing l =>
    rw [hp] at hheld hk
    cases hk
    exact hheld
  | _ =>
    rw [hp] at hk
    cases hk

theorem creation_unique {j : ℕ} {other : Running} (hrun : w.calls.get? i = some run)
    (hother : w.calls.get? j = some other) (hi : run.phase.creation = some k)
    (hj : other.phase.creation = some k) : i = j := by
  have hslot := (h.creation_held hrun hi).1
  rw [(h.creation_held hother hj).1] at hslot
  exact (Option.some.inj hslot).symm

theorem creations_length : w.creations.length ≤ w.inflight.rows.length := by
  have hnodup : (w.creations.map Prod.fst).Nodup :=
    w.calls.nodup.sublist (List.filter_sublist.map _)
  have hsubset : w.creations.map Prod.fst ⊆ w.inflight.rows.map Prod.snd := by
    intro i hi
    obtain ⟨⟨i,run⟩,hmem,rfl⟩ := List.mem_map.mp hi
    obtain ⟨hcall,hcreation⟩ := List.mem_filter.mp hmem
    obtain ⟨k,hk⟩ := Option.isSome_iff_exists.mp hcreation
    have hslot := (h.creation_held (Dict.get?_eq_some.mpr hcall) hk).1
    exact List.mem_map.mpr ⟨(k,i),Dict.get?_eq_some.mp hslot,rfl⟩
  have hlength := (List.subperm_of_subset hnodup hsubset).length_le
  rwa [List.length_map,List.length_map] at hlength

theorem capacity : w.registry.sessions.rows.length+w.creations.length ≤ maxSessions :=
  (Nat.add_le_add_left h.creations_length _).trans h.room

end

end Reserved

end CodexLb.Bridge
