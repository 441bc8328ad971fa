import CodexLb.BridgeIndex
import CodexLb.BridgeOutcomes

/-!
# What a call knows at its awaits

The key a call works with, the session it is going to return and the future it
waits on all belong to its API key, and the future it is about to insert is the
only one for the key. The stages of the locked block establish this from a
consistent registry.
-/
namespace CodexLb.Bridge
open Registry

section Awaits
variable (keyOf futureKey : ℕ → Option SessionKey) (apiKeyId : Option String)

/-- The local variables of a pass before the call holds a future of its own. -/
structure Locals.Tracked (l : Locals) : Prop where
  scope : l.key.apiKeyId = apiKeyId
  returns : ∀ sid, l.sessionToReturnAfterClose = some sid → keyOf sid = some l.key
  future : ∀ f, l.inflightFuture = some f → futureKey f = some l.key
  notOwner : l.ownsCreation = false
  noError : l.continuityError = none
  noWait : l.capacityWaitFuture = none

/-- After the locked block: a call that owns the creation waits for nobody. -/
structure Locals.Settled (i : ℕ) (l : Locals) : Prop where
  scope : l.key.apiKeyId = apiKeyId
  returns : ∀ sid, l.sessionToReturnAfterClose = some sid → keyOf sid = some l.key
  future : ∀ f, l.inflightFuture = some f → futureKey f = some l.key
  owner : l.ownsCreation = true →
    l.inflightFuture = some i ∧ l.continuityError = none ∧ l.capacityWaitFuture = none

/-- A call that creates a session has put the future for it into the map, or
found none there. -/
structure Locals.Creating (i : ℕ) (l : Locals) : Prop where
  scope : l.key.apiKeyId = apiKeyId
  future : l.inflightFuture = if l.ownsCreation then some i else none
  owned : l.ownsCreation = true → futureKey i = some l.key

def OfApiKey (sid : ℕ) : Prop := ∃ k : SessionKey, keyOf sid = some k ∧ k.apiKeyId = apiKeyId

def Phase.Knows (i : ℕ) : Phase → Prop
  | .acquiring key => key.apiKeyId = apiKeyId
  | .scanning l _ _ _ | .pruning l _ _ | .owner l =>
    l.Tracked keyOf futureKey apiKeyId ∧ l.sessionToReturnAfterClose = none
  | .refreshing l sid =>
    l.Tracked keyOf futureKey apiKeyId ∧ l.inflightFuture = none ∧ keyOf sid = some l.key
  | .evicting l | .weighing l _ _ =>
    l.Tracked keyOf futureKey apiKeyId ∧ l.inflightFuture = none
  | .closing l _ _ => l.Settled keyOf futureKey apiKeyId i
  | .waitingInflight l f => l.key.apiKeyId = apiKeyId ∧ futureKey f = some l.key
  | .waitingCapacity l _ | .dropping l _ _ | .closingJoined l _ _ => l.key.apiKeyId = apiKeyId
  | .creating l | .failing l _ _ => l.Creating futureKey apiKeyId i
  | .claiming l | .registering l => l.Creating futureKey apiKeyId i ∧ keyOf i = some l.key
  | .reusing sid | .returned sid _ => OfApiKey keyOf apiKeyId sid
  | _ => True

/-- The key whose future a call is about to put into the map. -/
def Phase.counting : Phase → Option SessionKey
  | .refreshing l _ | .evicting l | .weighing l _ _ => some l.key
  | _ => none

structure Stage (i : ℕ) (inflight : Dict SessionKey ℕ) (r : Registry) (out : Registry × Phase) :
    Prop where
  sound : Sound r out.1
  knows : out.2.Knows keyOf futureKey apiKeyId i
  vacant : ∀ k, out.2.counting = some k → inflight.get? k = none

def AliasResult.Knows (r : Registry) : AliasResult → Prop
  | .proceed q l => Sound r q ∧ l.Tracked keyOf futureKey apiKeyId ∧
      l.sessionToReturnAfterClose = none
  | .again q key => Sound r q ∧ key.apiKeyId = apiKeyId

end Awaits

section Stages
variable {keyOf futureKey : ℕ → Option SessionKey} {apiKeyId : Option String}
variable {r : Registry} {c : Call} {l : Locals} {i : ℕ}

theorem Locals.Tracked.settled (h : l.Tracked keyOf futureKey apiKeyId) :
    l.Settled keyOf futureKey apiKeyId i := by
  refine ⟨h.scope,h.returns,h.future,?_⟩
  intro howns
  rw [h.notOwner] at howns
  cases howns

/-- A pass whose answer is fixed: the fields a continuity error and a capacity
wait write are not the ones that are tracked. -/
theorem Locals.Tracked.settled_with (h : l.Tracked keyOf futureKey apiKeyId)
    (error : Option ProxyError) (future : Option ℕ) :
    ({l with continuityError := error,capacityWaitFuture := future} : Locals).Settled
      keyOf futureKey apiKeyId i := by
  refine ⟨h.scope,h.returns,h.future,?_⟩
  intro howns
  rw [show _ = false from h.notOwner] at howns
  cases howns

variable {key : SessionKey} {q : Registry}

theorem knows_start (hq : Sound r q) (hkey : key.apiKeyId = apiKeyId) (missing fallback : Bool) :
    (AliasResult.proceed q (.start key missing fallback)).Knows keyOf futureKey apiKeyId r :=
  have hnone {sid : ℕ} {P : Prop} (h : none = some sid) : P := nomatch h
  ⟨hq,⟨hkey,fun _ h => hnone h,fun _ h => hnone h,rfl,rfl,rfl⟩,rfl⟩

theorem resolveAlias_knows (env : Env) (hr : r.Consistent) (hkey : key.apiKeyId = c.apiKeyId) :
    (resolveAlias env c key r).Knows keyOf futureKey c.apiKeyId r := by
  have halias := resolveAlias_aliasStep env c key r
  generalize resolveAlias env c key r = out at halias ⊢
  cases halias with
  | keeps => exact knows_start (.refl r) hkey false false
  | follows hindex hs =>
    refine knows_start (sound_promoteAndIndex env r _ _) ?_ _ _
    rw [(hr.session? hs).2.1]
    exact hr.turnStates _ _ hindex
  | forgets =>
    refine knows_start (sound_popTurnState r _) ?_ _ _
    rfl
  | previous hindex hs =>
    refine ⟨sound_promoteAndIndex env r _ _,?_⟩
    rw [(hr.session? hs).2.1]
    exact hr.previousResponses _ _ hindex
  | without _ _ _ _ hq hk =>
    rcases hq with rfl | ⟨a,rfl⟩
    · exact knows_start (.refl _) hk _ _
    · exact knows_start (sound_popPreviousResponse r a) hk _ _

theorem scanFrom_cases (r : Registry) (l : Locals) (now : ℤ) (rows : List (SessionKey × ℕ))
    (stale : List SessionKey) :
    (∃ row rest keys, scanFrom r l now rows stale = .scanning l now (row::rest) keys) ∨
      ∃ keys, scanFrom r l now rows stale = .pruning l none keys := by
  unfold scanFrom
  split
  · exact .inr ⟨_,rfl⟩
  · exact .inl ⟨_,_,_,rfl⟩

theorem scanFrom_stage (now : ℤ) (rows : List (SessionKey × ℕ)) (stale : List SessionKey)
    (inflight : Dict SessionKey ℕ) (hl : l.Tracked keyOf futureKey apiKeyId)
    (hret : l.sessionToReturnAfterClose = none) (hq : Sound r q) :
    Stage keyOf futureKey apiKeyId i inflight r (q,scanFrom q l now rows stale) := by
  rcases scanFrom_cases q l now rows stale with ⟨row,rest,keys,hscan⟩ | ⟨keys,hscan⟩
  · rw [hscan]
    exact ⟨hq,⟨hl,hret⟩,nofun⟩
  · rw [hscan]
    exact ⟨hq,⟨hl,hret⟩,nofun⟩

theorem selectExisting_stage (env : Env) (now : ℤ) (hr : r.Consistent)
    (inflight : Dict SessionKey ℕ) (hl : l.Tracked r.keyOf futureKey apiKeyId)
    (hret : l.sessionToReturnAfterClose = none) :
    Stage r.keyOf futureKey apiKeyId i inflight r (selectExisting env c now l r) := by
  have htodo : ∀ existing todo, ({l with
      existing := existing
      sessionsToClose := todo} : Locals).Tracked r.keyOf futureKey apiKeyId :=
    fun _ _ => ⟨hl.scope,hl.returns,hl.future,hl.notOwner,hl.noError,hl.noWait⟩
  have hpop : ∀ sid, Sound r ((r.pop l.key).unregisterTurnStates sid) :=
    fun sid => (sound_pop r l.key).trans (sound_unregisterTurnStates _ sid)
  have hclose : ∀ sid, Sound r (((r.pop l.key).unregisterTurnStates sid).markClosed sid) :=
    fun sid => (hpop sid).trans (sound_markClosed _ sid)
  unfold selectExisting
  split
  · exact ⟨.refl r,⟨hl,hret⟩,nofun⟩
  · rename_i sid s hs
    split_ifs
    · exact ⟨sound_modify r sid fun _ => ⟨rfl,rfl,rfl⟩,⟨l.key,(hr.session? hs).2.2,hl.scope⟩,nofun⟩
    · exact ⟨hclose sid,⟨htodo _ _,hret⟩,nofun⟩
    · exact ⟨hpop sid,⟨hl,hret⟩,nofun⟩
    · exact ⟨hclose sid,⟨htodo _ _,hret⟩,nofun⟩
    · exact ⟨.refl r,⟨htodo _ _,hret⟩,nofun⟩

/-- No branch but the capacity count leaves the key to be inserted. -/
theorem continuityOrCapacity_knows (hl : l.Tracked keyOf futureKey apiKeyId) :
    (continuityOrCapacity c l r).Knows keyOf futureKey apiKeyId i := by
  unfold continuityOrCapacity
  split_ifs with _ _ hfuture
  · exact hl.settled_with _ _
  · split
    · exact hl.settled
    · split_ifs
      · exact hl.settled_with _ _
      · exact hl.settled_with _ _
      · exact hl.settled
  · exact ⟨hl,hfuture⟩
  · exact hl.settled

theorem continuityOrCapacity_counting {k : SessionKey}
    (h : (continuityOrCapacity c l r).counting = some k) :
    l.inflightFuture = none ∧ l.key = k := by
  unfold continuityOrCapacity at h
  split_ifs at h with _ _ hfuture
  · cases h
  · split at h
    · cases h
    · split_ifs at h <;> cases h
  · exact ⟨hfuture,Option.some.inj h⟩
  · cases h

variable {inflight : Dict SessionKey ℕ}

theorem continuityOrCapacity_stage (hq : Sound r q) (hl : l.Tracked keyOf futureKey apiKeyId)
    (hfuture : l.inflightFuture = inflight.get? l.key) :
    Stage keyOf futureKey apiKeyId i inflight r (q,continuityOrCapacity c l q) := by
  refine ⟨hq,continuityOrCapacity_knows hl,?_⟩
  intro k hk
  obtain ⟨hnone,rfl⟩ := continuityOrCapacity_counting hk
  rw [← hfuture]
  exact hnone

/-- Every future in the map was made for the key it is under. -/
def SlotsKeyed (futureKey : ℕ → Option SessionKey) (inflight : Dict SessionKey ℕ) : Prop :=
  ∀ (k : SessionKey) (f : ℕ), inflight.get? k = some f → futureKey f = some k

theorem lookupPrevious_stage {env : Env} {now : ℤ} (hr : r.Consistent)
    (hslots : SlotsKeyed futureKey inflight) (hl : l.Tracked r.keyOf futureKey c.apiKeyId)
    (hret : l.sessionToReturnAfterClose = none) (hfuture : l.inflightFuture = inflight.get? l.key) :
    Stage r.keyOf futureKey c.apiKeyId i inflight r (lookupPrevious env c now l inflight r) := by
  have hstep := lookupPrevious_previousStep env c now l inflight r
  generalize lookupPrevious env c now l inflight r = out at hstep ⊢
  cases hstep with
  | continues => exact continuityOrCapacity_stage (.refl r) hl hfuture
  | forgets => exact continuityOrCapacity_stage (sound_popPreviousResponse r _) hl hfuture
  | @finds response previousKey sid s q p found next _ hindex hs hq hfound hnext =>
    obtain ⟨-,hkey,hkeyOf⟩ := hr.session? hs
    have hsound : Sound r q := by
      rcases hq with rfl | ⟨turnState,rfl⟩
      · exact .refl _
      · exact sound_promoteAndIndex env r sid turnState
    subst hfound
    have htracked : Locals.Tracked r.keyOf futureKey c.apiKeyId {l with
        key := s.key
        existing := some sid
        inflightFuture := inflight.get? previousKey} := by
      refine ⟨hkey ▸ hr.previousResponses _ _ hindex,?_,?_,hl.notOwner,hl.noError,hl.noWait⟩
      · intro j hj
        rw [show _ = none from hret] at hj
        cases hj
      · intro f hf
        exact hkey ▸ hslots previousKey f hf
    rcases hnext with ⟨hnone,rfl,rfl⟩ | ⟨-,rfl,rfl⟩
    · refine ⟨hsound.trans (sound_modify _ _ fun _ => ⟨rfl,rfl,rfl⟩),⟨htracked,hnone,hkey ▸ hkeyOf⟩,?_⟩
      intro k hk
      cases hk
      exact hkey ▸ hnone
    · exact continuityOrCapacity_stage hsound htracked (congrArg inflight.get? hkey.symm)

theorem discardExisting_tracked (hl : l.Tracked keyOf futureKey apiKeyId)
    (hret : l.sessionToReturnAfterClose = none) :
    Sound r (discardExisting l r).1 ∧ (discardExisting l r).2.Tracked keyOf futureKey apiKeyId ∧
      (discardExisting l r).2.sessionToReturnAfterClose = none := by
  unfold discardExisting
  split
  · exact ⟨.refl r,hl,hret⟩
  · exact ⟨sound_pop r l.key,
      ⟨hl.scope,hl.returns,hl.future,hl.notOwner,hl.noError,hl.noWait⟩,hret⟩

theorem findInflight_stage (env : Env) (now : ℤ) (hr : r.Consistent)
    (hslots : SlotsKeyed futureKey inflight) (hl : l.Tracked r.keyOf futureKey c.apiKeyId)
    (hret : l.sessionToReturnAfterClose = none) :
    Stage r.keyOf futureKey c.apiKeyId i inflight r (findInflight env c now l inflight r) := by
  obtain ⟨hsound,hd,hdret⟩ := discardExisting_tracked hl hret
  have hkeys : (discardExisting l r).1.keyOf = r.keyOf := funext hsound.keyOf
  rw [← hkeys] at hd ⊢
  have hstage : Stage _ futureKey c.apiKeyId i inflight _ (findInflight env c now l inflight r) :=
    lookupPrevious_stage (hsound.consistent hr) hslots
      ⟨hd.scope,hd.returns,hslots _,hd.notOwner,hd.noError,hd.noWait⟩ hdret rfl
  exact ⟨hsound.trans hstage.sound,hstage.knows,hstage.vacant⟩

end Stages

end CodexLb.Bridge
