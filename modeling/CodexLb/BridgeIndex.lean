import CodexLb.BridgeLookup

/-!
# What the registry maps keep

A key is mapped to a session that carries it, and an index entry leads to a key
of the API key that scopes the entry. Every operation on the registry keeps
this, and none changes the key of a session object.
-/
namespace CodexLb.Bridge
open Session
namespace Registry

def keyOf (r : Registry) (sid : ℕ) : Option SessionKey := (r.heap.get? sid).map key

def accountOf (r : Registry) (sid : ℕ) : Option Account := (r.heap.get? sid).map account

def pendingOf (r : Registry) (sid : ℕ) : Option ℕ := (r.heap.get? sid).map pendingCount

/-- An index whose entries lead to keys of their own scope. -/
def Scoped (d : Dict AliasKey SessionKey) : Prop :=
  ∀ (a : AliasKey) (k : SessionKey), d.get? a = some k → k.apiKeyId = a.2

structure Consistent (r : Registry) : Prop where
  keyed : ∀ (k : SessionKey) (sid : ℕ), r.sessions.get? k = some sid → r.keyOf sid = some k
  turnStates : Scoped r.turnStateIndex
  previousResponses : Scoped r.previousResponseIndex

/-- From one registry to the next: no session object changes its key, its account
or its pending requests, no session comes into the map, and the maps stay
consistent. -/
structure Sound (r q : Registry) : Prop where
  keyOf : ∀ sid, q.keyOf sid = r.keyOf sid
  accountOf : ∀ sid, q.accountOf sid = r.accountOf sid
  pendingOf : ∀ sid, q.pendingOf sid = r.pendingOf sid
  sessions : q.sessions.rows.Sublist r.sessions.rows
  consistent : r.Consistent → q.Consistent

theorem Sound.refl (r : Registry) : Sound r r :=
  ⟨fun _ => rfl,fun _ => rfl,fun _ => rfl,.refl _,id⟩

variable {r q : Registry}

theorem Sound.trans {p : Registry} (h : Sound r q) (k : Sound q p) : Sound r p :=
  ⟨fun sid => (k.keyOf sid).trans (h.keyOf sid),fun sid => (k.accountOf sid).trans (h.accountOf sid),
    fun sid => (k.pendingOf sid).trans (h.pendingOf sid),k.sessions.trans h.sessions,
    fun hr => k.consistent (h.consistent hr)⟩

variable {d : Dict AliasKey SessionKey}

theorem Scoped.set (h : Scoped d) (name : String) (key : SessionKey) :
    Scoped (d.set (name,key.apiKeyId) key) := by
  intro a k hk
  rw [Dict.get?_set] at hk
  split_ifs at hk with ha
  · cases hk
    rw [ha]
  · exact h a k hk

theorem Scoped.pop (h : Scoped d) (b : AliasKey) : Scoped (d.pop b) := by
  intro a k hk
  rw [Dict.get?_pop] at hk
  split_ifs at hk
  exact h a k hk

theorem Scoped.indexAliases (h : Scoped d) (key : SessionKey) (aliases : List String) :
    Scoped (indexAliases key aliases d) := by
  induction aliases generalizing d with
  | nil => exact h
  | cons a as ih => exact ih (h.set a key)

theorem Scoped.popAll (h : Scoped d) (apiKeyId : Option String) (aliases : List String) :
    Scoped (popAll apiKeyId aliases d) := by
  induction aliases generalizing d with
  | nil => exact h
  | cons a as ih => exact ih (h.pop _)

variable {sid : ℕ} {s : Session}

/-- A session object is replaced by one with the same value of a field. -/
theorem map_get?_set {β : Type} (field : Session → β) {heap : Dict ℕ Session}
    (hs : heap.get? sid = some s) (s' : Session) (hfield : field s' = field s) (j : ℕ) :
    ((heap.set sid s').get? j).map field = (heap.get? j).map field := by
  rw [Dict.get?_set]
  split_ifs with hj
  · subst hj
    rw [hs]
    exact congrArg some hfield
  · rfl

theorem Consistent.of_keys (hr : r.Consistent) (hkeys : ∀ sid, q.keyOf sid = r.keyOf sid)
    (hsessions : q.sessions = r.sessions) (hturn : Scoped q.turnStateIndex)
    (hprevious : Scoped q.previousResponseIndex) : q.Consistent := by
  refine ⟨?_,hturn,hprevious⟩
  intro k sid hk
  rw [hsessions] at hk
  rw [hkeys]
  exact hr.keyed k sid hk

variable {f : Session → Session}

theorem keyOf_modify (r : Registry) (sid : ℕ) (hf : ∀ s, (f s).key = s.key) (j : ℕ) :
    (r.modify sid f).keyOf j = r.keyOf j := by
  unfold modify
  split
  · rename_i s hs
    exact map_get?_set key hs (f s) (hf s) j
  · rfl

theorem Consistent.modify (hr : r.Consistent) (sid : ℕ) (hf : ∀ s, (f s).key = s.key) :
    (r.modify sid f).Consistent := by
  refine hr.of_keys (keyOf_modify r sid hf) ?_ ?_ ?_
  all_goals unfold Registry.modify; split
  · rfl
  · rfl
  · exact hr.turnStates
  · exact hr.turnStates
  · exact hr.previousResponses
  · exact hr.previousResponses

section
variable (r)

theorem sound_modify (sid : ℕ)
    (hf : ∀ s, (f s).key = s.key ∧ (f s).account = s.account ∧ (f s).pendingCount = s.pendingCount) :
    Sound r (r.modify sid f) := by
  refine ⟨keyOf_modify r sid fun s => (hf s).1,?_,?_,?_,fun hr => hr.modify sid fun s => (hf s).1⟩
  all_goals unfold modify
  · intro j
    split
    · rename_i s hs
      exact map_get?_set account hs (f s) (hf s).2.1 j
    · rfl
  · intro j
    split
    · rename_i s hs
      exact map_get?_set pendingCount hs (f s) (hf s).2.2 j
    · rfl
  · split <;> exact .refl _

theorem sound_markClosed (sid : ℕ) : Sound r (r.markClosed sid) :=
  sound_modify r sid fun _ => ⟨rfl,rfl,rfl⟩

theorem sound_pop (key : SessionKey) : Sound r (r.pop key) := by
  refine ⟨fun _ => rfl,fun _ => rfl,fun _ => rfl,List.filter_sublist,
    fun hr => ⟨?_,hr.turnStates,hr.previousResponses⟩⟩
  intro k sid hk
  simp only [pop,Dict.get?_pop] at hk
  split_ifs at hk
  exact hr.keyed k sid hk

theorem sound_popTurnState (a : AliasKey) : Sound r (r.popTurnState a) :=
  ⟨fun _ => rfl,fun _ => rfl,fun _ => rfl,.refl _,
    fun hr => ⟨hr.keyed,hr.turnStates.pop a,hr.previousResponses⟩⟩

theorem sound_popPreviousResponse (a : AliasKey) : Sound r (r.popPreviousResponse a) :=
  ⟨fun _ => rfl,fun _ => rfl,fun _ => rfl,.refl _,
    fun hr => ⟨hr.keyed,hr.turnStates,hr.previousResponses.pop a⟩⟩

theorem sound_registerAliases (sid : ℕ) : Sound r (r.registerAliases sid) := by
  unfold registerAliases
  split
  · exact ⟨fun _ => rfl,fun _ => rfl,fun _ => rfl,.refl _,
      fun hr => ⟨hr.keyed,hr.turnStates.indexAliases _ _,hr.previousResponses⟩⟩
  · exact .refl r

end

section
variable (r)

theorem sound_unregisterTurnStates (sid : ℕ) : Sound r (r.unregisterTurnStates sid) := by
  unfold unregisterTurnStates
  split
  · rename_i s hs
    have hkeys := map_get?_set key hs {s with downstreamTurnStateAliases := []} rfl
    exact ⟨hkeys,map_get?_set account hs _ rfl,
      map_get?_set pendingCount hs _ rfl,.refl _,
      fun hr => hr.of_keys hkeys rfl (hr.turnStates.popAll _ _) hr.previousResponses⟩
  · exact .refl r

theorem sound_unregisterPreviousResponseIds (sid : ℕ) :
    Sound r (r.unregisterPreviousResponseIds sid) := by
  unfold unregisterPreviousResponseIds
  split
  · rename_i s hs
    have hkeys := map_get?_set key hs {s with previousResponseIds := []} rfl
    exact ⟨hkeys,map_get?_set account hs _ rfl,
      map_get?_set pendingCount hs _ rfl,.refl _,
      fun hr => hr.of_keys hkeys rfl hr.turnStates (hr.previousResponses.popAll _ _)⟩
  · exact .refl r

theorem sound_closeLocked : Sound r (r.closeLocked sid) :=
  ((sound_markClosed r sid).trans (sound_unregisterTurnStates _ sid)).trans
    (sound_unregisterPreviousResponseIds _ sid)

theorem sound_registerTurnState (sid : ℕ) (turnState : String) :
    Sound r (r.registerTurnState sid turnState) := by
  unfold registerTurnState
  split
  · split_ifs
    · exact .refl r
    · have hadd : Sound r (r.modify sid (addAlias · turnState)) := sound_modify r sid fun _ => ⟨rfl,rfl,rfl⟩
      exact hadd.trans (sound_registerAliases _ sid)
  · exact .refl r

theorem sound_registerPreviousResponseId (sid : ℕ) (responseId : String) :
    Sound r (r.registerPreviousResponseId sid responseId) := by
  unfold registerPreviousResponseId
  split
  · rename_i s hs
    split_ifs
    · exact .refl r
    · have hkeys := map_get?_set key hs
        {s with previousResponseIds := s.previousResponseIds.insert responseId} rfl
      exact ⟨hkeys,map_get?_set account hs _ rfl,
      map_get?_set pendingCount hs _ rfl,.refl _,
        fun hr => hr.of_keys hkeys rfl hr.turnStates (hr.previousResponses.set responseId s.key)⟩
  · exact .refl r

theorem sound_popIfSame (key : SessionKey) (sid : ℕ) : Sound r (r.popIfSame key sid) := by
  unfold popIfSame
  split_ifs
  · exact sound_pop r key
  · exact .refl r

theorem sound_pruneKey (key : SessionKey) : Sound r (r.pruneKey key) := by
  unfold pruneKey
  split
  · exact (sound_pop r key).trans (sound_closeLocked _)
  · exact .refl r

end

variable {key : SessionKey}

theorem Consistent.put (h : r.Consistent) (hkey : r.keyOf sid = some key) :
    (r.put key sid).Consistent := by
  refine ⟨?_,h.turnStates,h.previousResponses⟩
  intro k j hk
  simp only [Registry.put,Dict.get?_set] at hk
  split_ifs at hk with hj
  · cases hk
    rw [hj]
    exact hkey
  · exact h.keyed k j hk

theorem Consistent.session? (h : r.Consistent) (hs : r.session? key = some (sid,s)) :
    r.heap.get? sid = some s ∧ s.key = key ∧ r.keyOf sid = some key := by
  obtain ⟨j,hj,hmap⟩ := Option.bind_eq_some_iff.mp hs
  obtain ⟨q,hq,he⟩ := Option.map_eq_some_iff.mp hmap
  simp only [Prod.mk.injEq] at he
  obtain ⟨rfl,rfl⟩ := he
  have hkey := h.keyed key j hj
  refine ⟨hq,?_,hkey⟩
  rw [keyOf,hq] at hkey
  exact Option.some.inj hkey

theorem sound_promoteAndIndex (env : Env) (r : Registry) (sid : ℕ) (turnState : String) :
    Sound r (promoteAndIndex env r sid turnState) :=
  .trans (by exact sound_modify r sid fun _ => ⟨rfl,rfl,rfl⟩) (sound_registerAliases _ sid)

end Registry

end CodexLb.Bridge
