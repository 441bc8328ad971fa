import CodexLb.BridgeRegistry

/-!
# Looking up a bridge session

The sequential parts of `ProxyService._get_or_create_http_bridge_session`: the
arguments and local variables of a call, the awaits it rests at, and the code
between two awaits as functions of the registry. What the ring, the drain flag
and the owner's endpoint answer is an argument.

A call inserts at most one future and creates at most one session, so both
carry the number of the call.
-/
namespace CodexLb.Bridge

/-- Settings, and the two string functions of the endpoint and alias tests. -/
structure Env where
  strip : String → String
  normalizeEndpoint : String → String
  instanceId : String
  advertiseBaseUrl : Option String
  hasRingMembership : Bool
  codexIdleTtlSeconds : ℤ

inductive DurableState where
  | active | draining | closed
  deriving DecidableEq, Repr

structure DurableLookup where
  canonicalKind : String
  canonicalKey : String
  ownerInstanceId : Option String
  leaseExpiresAt : Option ℤ
  state : DurableState
  latestResponseId : Option String
  deriving DecidableEq, Repr

structure ProxyError where
  status : ℕ
  code : String
  message : String
  deriving DecidableEq, Repr

inductive Raised where
  | proxy (e : ProxyError)
  | cancelled
  | other
  deriving DecidableEq, Repr

structure OwnerForward where
  ownerInstance : String
  ownerEndpoint : String
  key : SessionKey
  deriving DecidableEq, Repr

/-- The arguments of a call. Every caller derives the key from its API key. -/
structure Call where
  key : SessionKey
  apiKey : Option ApiKeyData
  keyScope : key.apiKeyId = apiKey.map (·.id)
  incomingTurnState : Option String
  incomingSessionKey : Option String
  previousResponseId : Option String := none
  preferredAccountId : Option String := none
  codexAffinity : Bool
  idleTtlSeconds : ℤ
  maxSessions : ℕ
  gatewaySafeMode : Bool := false
  allowForwardToOwner : Bool := false
  forwardedRequest : Bool := false
  /-- The request names the affinity key of the instance that forwarded it. -/
  forwardedAffinity : Bool := false
  allowPreviousResponseRecoveryRebind : Bool := false
  allowBootstrapOwnerRebind : Bool := false
  durableLookup : Option DurableLookup := none

def Call.apiKeyId (c : Call) : Option String := c.apiKey.map (·.id)

structure Locals where
  key : SessionKey
  existing : Option ℕ
  sessionsToClose : List ℕ
  missingTurnStateAlias : Bool
  usedSessionHeaderFallback : Bool
  ownerForward : Option OwnerForward
  forceDurableTakeover : Bool
  inflightFuture : Option ℕ
  capacityWaitFuture : Option ℕ
  ownsCreation : Bool
  continuityError : Option ProxyError
  sessionToReturnAfterClose : Option ℕ
  deriving DecidableEq, Repr

def Locals.start (key : SessionKey) (missing fallback : Bool) : Locals :=
  ⟨key,none,[],missing,fallback,none,false,none,none,false,none,none⟩

inductive CloseStage where
  | turnStates | previousResponseIds | teardown
  deriving DecidableEq, Repr

inductive Phase where
  | arriving
  | acquiring (key : SessionKey)
  | scanning (l : Locals) (now : ℤ) (rows : List (SessionKey × ℕ)) (stale : List SessionKey)
  | pruning (l : Locals) (closing : Option ℕ) (stale : List SessionKey)
  | reusing (sid : ℕ)
  | owner (l : Locals)
  | refreshing (l : Locals) (sid : ℕ)
  | evicting (l : Locals)
  | weighing (l : Locals) (rows idle : List (SessionKey × ℕ))
  | closing (l : Locals) (todo : List ℕ) (stage : CloseStage)
  | waitingCapacity (l : Locals) (future : ℕ)
  | waitingInflight (l : Locals) (future : ℕ)
  | dropping (l : Locals) (sid : ℕ) (retiring : Bool)
  | closingJoined (l : Locals) (sid : ℕ) (stage : CloseStage)
  | creating (l : Locals)
  | claiming (l : Locals)
  | registering (l : Locals)
  | failing (l : Locals) (exc : Raised) (created : Bool)
  | closingCreated (exc : Raised) (stage : CloseStage)
  | returned (sid : ℕ) (accountId : String)
  | forwarded (f : OwnerForward)
  | raised (exc : Raised)
  deriving DecidableEq, Repr

/-- What the owner lookup meets: the drain flag, the owner instance, the
active ring and the owner's endpoint; `none` is an exception. -/
structure OwnerProbe where
  drainActive : Bool
  now : ℤ
  ownerInstance : Option (Option String)
  ring : Option (String × List String)
  ownerEndpoint : Option (Option String)
  deriving DecidableEq, Repr

def startsWithHttpTurn (turnState : String) : Bool :=
  "http_turn_".toList.isPrefixOf turnState.toList

/-- `_durable_bridge_lookup_active_owner`. -/
def activeOwner (now : ℤ) : Option DurableLookup → Option String
  | none => none
  | some d =>
    if d.state = .closed then none
    else match d.ownerInstanceId,d.leaseExpiresAt with
      | some o,some t => if t ≤ now then none else some o
      | _,_ => none

def allowsLocalReuse (env : Env) (now : ℤ) (d : Option DurableLookup) : Bool :=
  match activeOwner now d with
  | none => true
  | some o => o = env.instanceId

def hasDurableRecoveryAnchor (c : Call) : Bool :=
  c.previousResponseId ≠ none ||
    match c.durableLookup with
    | none => false
    | some d => d.latestResponseId ≠ none &&
        d.canonicalKind ∈ ["turn_state_header","session_header"]

def canLocalRecoverWithoutRing (c : Call) (key : SessionKey) : Bool :=
  hasDurableRecoveryAnchor c ||
    (key.affinityKind = "session_header" && c.previousResponseId = none &&
      c.incomingTurnState = none)

def ownerCheckRequired (c : Call) (key : SessionKey) : Bool :=
  key.strength = .hard || (c.gatewaySafeMode && key.affinityKind = "sticky_thread")

def canSingleInstancePromptCacheTakeover (key : SessionKey) (owner current : String)
    (ring : List String) : Bool :=
  key.affinityKind = "prompt_cache" && owner ≠ current && ring = [current] && owner ∉ ring

def drainActiveError : ProxyError :=
  ⟨503,"bridge_drain_active","HTTP bridge is draining — new sessions not accepted during shutdown"⟩

def ownerLookupError : ProxyError :=
  ⟨502,"upstream_unavailable","HTTP bridge owner metadata unavailable; retry later."⟩

def forwardLoopError : ProxyError :=
  ⟨503,"bridge_forward_loop_prevented",
    "HTTP bridge request was forwarded back to a non-owner instance; refusing takeover to avoid a forward loop"⟩

def continuityLostError : ProxyError :=
  ⟨502,"stream_incomplete","Upstream websocket closed before response.completed"⟩

def scopeConflictError : ProxyError :=
  ⟨409,"bridge_instance_mismatch","HTTP bridge turn-state is bound to a different API key scope"⟩

def generatedTurnStateError : ProxyError :=
  ⟨409,"bridge_instance_mismatch","HTTP bridge continuity was lost for generated turn-state"⟩

def noIdleCapacityError : ProxyError :=
  ⟨429,"rate_limit_exceeded","HTTP responses session bridge has no idle capacity"⟩

def registrationError : ProxyError :=
  ⟨503,"bridge_owner_unreachable","HTTP bridge registration is not ready"⟩

def shutdownError : ProxyError :=
  ⟨503,"upstream_unavailable","HTTP responses session bridge is shutting down"⟩

section Owner
variable (env : Env) (c : Call) (key : SessionKey) (p : OwnerProbe)

/-- The owner instance, and whether the ring lookup for it failed. -/
def ownerInstance : Except Raised (Option String × Bool) :=
  match activeOwner p.now c.durableLookup with
  | some o => .ok (some o,false)
  | none =>
    match p.ownerInstance with
    | some o => .ok (o,false)
    | none =>
      if ownerCheckRequired c key || c.previousResponseId ≠ none then
        .error (.proxy ownerLookupError)
      else if canLocalRecoverWithoutRing c key then .ok (some env.instanceId,true)
      else .error .other

def activeRing (ringLookupFailed : Bool) : Except Raised (String × List String) :=
  match p.ring with
  | some r => .ok r
  | none =>
    if ownerCheckRequired c key || c.previousResponseId ≠ none then
      .error (.proxy ownerLookupError)
    else if ringLookupFailed || canLocalRecoverWithoutRing c key then
      .ok (env.instanceId,[env.instanceId])
    else .error .other

def endpointMatchesCurrentInstance (endpoint : String) : Bool :=
  match env.advertiseBaseUrl with
  | none => false
  | some url => env.normalizeEndpoint endpoint = env.normalizeEndpoint url

def forwardOrTakeOver (owner : String) : Except Raised (Option OwnerForward × Bool) :=
  if !c.allowForwardToOwner then .ok (none,true)
  else if c.forwardedRequest then .error (.proxy forwardLoopError)
  else if !env.hasRingMembership then .ok (none,true)
  else match p.ownerEndpoint with
    | none => .error .other
    | some none => .ok (none,true)
    | some (some endpoint) =>
      if endpointMatchesCurrentInstance env endpoint then .ok (none,true)
      else .ok (some ⟨owner,endpoint,key⟩,false)

def ownerMismatch (owner current : String) (ring : List String) :
    Except Raised (Option OwnerForward × Bool) :=
  if ownerCheckRequired c key &&
      !(c.previousResponseId ≠ none && c.allowPreviousResponseRecoveryRebind) &&
      !c.allowBootstrapOwnerRebind then
    forwardOrTakeOver env c key p owner
  else .ok (none,canSingleInstancePromptCacheTakeover key owner current ring ||
    c.allowPreviousResponseRecoveryRebind || c.allowBootstrapOwnerRebind)

/-- Drain check and owner check: the forward to make, if any, and whether the
durable session may be taken over. -/
def ownerCheck : Except Raised (Option OwnerForward × Bool) :=
  if p.drainActive && !hasDurableRecoveryAnchor c then .error (.proxy drainActiveError)
  else if !(ownerCheckRequired c key || key.affinityKind = "prompt_cache") then .ok (none,false)
  else
    match ownerInstance env c key p with
    | .error e => .error e
    | .ok (owner,failed) =>
      match activeRing env c key p failed with
      | .error e => .error e
      | .ok (current,ring) =>
        match owner with
        | none => .ok (none,false)
        | some o =>
          if o ≠ current && (1 < ring.length || c.durableLookup.isSome) then
            ownerMismatch env c key p o current ring
          else .ok (none,false)

end Owner

section Stages
variable (env : Env) (c : Call)

def preserveDurableCanonicalKey (key : SessionKey) : Bool :=
  c.incomingTurnState ≠ none && !c.forwardedAffinity &&
    match c.durableLookup with
    | none => false
    | some d => key.affinityKind = d.canonicalKind && key.affinityKey = d.canonicalKey &&
        key.affinityKind ≠ "turn_state_header"

/-- The outcome of the alias lookup: the pass goes on with a key, or the loop
starts again. -/
inductive AliasResult where
  | proceed (r : Registry) (l : Locals)
  | again (r : Registry) (key : SessionKey)

def promoteAndIndex (r : Registry) (sid : ℕ) (turnState : String) : Registry :=
  (r.promoteToCodexAffinity env.codexIdleTtlSeconds sid turnState).registerAliases sid

def followAlias (turnState : String) (aliasKey : SessionKey) (r : Registry) : AliasResult :=
  match r.session? aliasKey with
  | some (sid,s) =>
    if s.usable && s.matchesPreferredAccount c.previousResponseId c.preferredAccountId then
      .proceed (promoteAndIndex env r sid turnState) (.start s.key false false)
    else .proceed (r.popTurnState (turnState,c.apiKeyId))
      (.start (.make "turn_state_header" turnState c.apiKeyId) false false)
  | none => .proceed (r.popTurnState (turnState,c.apiKeyId))
      (.start (.make "turn_state_header" turnState c.apiKeyId) false false)

def withoutAlias (turnState : String) (r : Registry) : AliasResult :=
  match c.incomingSessionKey with
  | some k => .proceed r (.start (.make "session_header" k c.apiKeyId) false true)
  | none => .proceed r (.start (.make "turn_state_header" turnState c.apiKeyId) true false)

/-- Look for the session of the previous response before giving up on the
alias of a generated turn state. -/
def followPreviousResponse (turnState : String) (r : Registry) : AliasResult :=
  match c.previousResponseId with
  | none => withoutAlias c turnState r
  | some response =>
    let a := (env.strip response,c.apiKeyId)
    match r.previousResponseIndex.get? a with
    | none => withoutAlias c turnState r
    | some previousKey =>
      match r.session? previousKey with
      | some (sid,s) =>
        if s.usable && s.matchesPreferredAccount c.previousResponseId c.preferredAccountId then
          .again (promoteAndIndex env r sid turnState) s.key
        else withoutAlias c turnState (r.popPreviousResponse a)
      | none => withoutAlias c turnState (r.popPreviousResponse a)

def resolveAlias (key : SessionKey) (r : Registry) : AliasResult :=
  match c.incomingTurnState with
  | none => .proceed r (.start key false false)
  | some turnState =>
    if c.forwardedAffinity || preserveDurableCanonicalKey c key then
      .proceed r (.start key false false)
    else match r.turnStateIndex.get? (turnState,c.apiKeyId) with
      | some aliasKey => followAlias env c turnState aliasKey r
      | none =>
        if startsWithHttpTurn turnState then followPreviousResponse env c turnState r
        else .proceed r (.start key false false)

def scanFrom (r : Registry) (l : Locals) (now : ℤ) (rows : List (SessionKey × ℕ))
    (stale : List SessionKey) : Phase :=
  match r.scanAhead rows stale with
  | ([],stale) => .pruning l none stale
  | (row::rows,stale) => .scanning l now (row::rows) stale

def reusable (key : SessionKey) (s : Session) : Bool :=
  s.usable && s.allowsApiKey c.apiKey &&
    s.reusableForRequest key c.incomingTurnState c.previousResponseId &&
    s.matchesPreferredAccount c.previousResponseId c.preferredAccountId

/-- The session under the key is returned, retired, or left to be discarded. -/
def selectExisting (now : ℤ) (l : Locals) (r : Registry) : Registry × Phase :=
  match r.session? l.key with
  | none => (r,.owner l)
  | some (sid,s) =>
    if reusable c l.key s then
      if allowsLocalReuse env now c.durableLookup then
        (r.modify sid fun s => {s with lastUsedAt := now},.reusing sid)
      else (((r.pop l.key).unregisterTurnStates sid).markClosed sid,
        .owner {l with sessionsToClose := l.sessionsToClose++[sid]})
    else if s.usable then
      if s.retiringWithVisibleRequests then ((r.pop l.key).unregisterTurnStates sid,.owner l)
      else (((r.pop l.key).unregisterTurnStates sid).markClosed sid,
        .owner {l with sessionsToClose := l.sessionsToClose++[sid]})
    else (r,.owner {l with existing := some sid})

/-- A session that was closed or inactive when the key was looked up. -/
def discardExisting (l : Locals) (r : Registry) : Registry × Locals :=
  match l.existing with
  | none => (r,l)
  | some sid => (r.pop l.key,{l with sessionsToClose := l.sessionsToClose++[sid]})

def existingUsable (l : Locals) (r : Registry) : Bool :=
  ((l.existing.bind r.heap.get?).map (·.usable)).getD false

/-- No await follows before the block is left or the capacity is counted. -/
def continuityOrCapacity (l : Locals) (r : Registry) : Phase :=
  if l.sessionToReturnAfterClose = none && c.previousResponseId ≠ none &&
      !l.usedSessionHeaderFallback && !c.allowPreviousResponseRecoveryRebind &&
      c.durableLookup = none then
    .closing {l with continuityError := some continuityLostError} l.sessionsToClose .turnStates
  else if l.missingTurnStateAlias && l.inflightFuture = none && c.durableLookup = none then
    match c.incomingTurnState with
    | none => .closing l l.sessionsToClose .turnStates
    | some turnState =>
      if r.turnStateIndex.rows.any fun q => q.1.1 = turnState && q.1.2 ≠ c.apiKeyId then
        .closing {l with continuityError := some scopeConflictError} l.sessionsToClose .turnStates
      else if startsWithHttpTurn turnState && !c.allowForwardToOwner then
        .closing {l with continuityError := some generatedTurnStateError} l.sessionsToClose
          .turnStates
      else .closing l l.sessionsToClose .turnStates
  else if l.inflightFuture = none then .evicting l
  else .closing l l.sessionsToClose .turnStates

/-- The previous-response index, asked when nothing is in flight for the key. -/
def lookupPrevious (now : ℤ) (l : Locals) (inflight : Dict SessionKey ℕ)
    (r : Registry) : Registry × Phase :=
  match c.previousResponseId with
  | none => (r,continuityOrCapacity c l r)
  | some response =>
    if l.inflightFuture ≠ none || existingUsable l r then (r,continuityOrCapacity c l r) else
    let a := (env.strip response,c.apiKeyId)
    match r.previousResponseIndex.get? a with
    | none => (r,continuityOrCapacity c l r)
    | some previousKey =>
      match r.session? previousKey with
      | none => (r.popPreviousResponse a,continuityOrCapacity c l (r.popPreviousResponse a))
      | some (sid,s) =>
        if s.usable then
          let found := {l with
            key := s.key
            existing := some sid
            inflightFuture := inflight.get? previousKey}
          let r := match c.incomingTurnState with
            | none => r
            | some turnState => promoteAndIndex env r sid turnState
          if found.inflightFuture = none then
            (r.modify sid fun s => {s with lastUsedAt := now},.refreshing found sid)
          else (r,continuityOrCapacity c found r)
        else (r.popPreviousResponse a,continuityOrCapacity c l (r.popPreviousResponse a))

def findInflight (now : ℤ) (l : Locals) (inflight : Dict SessionKey ℕ) (r : Registry) :
    Registry × Phase :=
  let d := discardExisting l r
  lookupPrevious env c now {d.2 with inflightFuture := inflight.get? d.2.key} inflight d.1

def dispatch (r : Registry) (l : Locals) : Phase :=
  match l.sessionToReturnAfterClose,l.ownerForward,l.continuityError with
  | some sid,_,_ => .returned sid (((r.heap.get? sid).map (·.account.id)).getD "")
  | none,some f,_ => .forwarded f
  | none,none,some e => .raised (.proxy e)
  | none,none,none =>
    match l.capacityWaitFuture,l.inflightFuture with
    | some f,_ => .waitingCapacity l f
    | none,some f => if l.ownsCreation then .creating l else .waitingInflight l f
    | none,none => .creating l

/-- The session `_create_http_bridge_session` builds. -/
def newSession (key : SessionKey) (account : Account) (now : ℤ) : Session :=
  ⟨key,account,false,false,false,0,now,c.idleTtlSeconds,c.codexAffinity,[],[]⟩

/-- Account selection stays inside the scope of the API key, and a required
preferred account is the only one accepted. -/
def selectable (account : Account) : Bool :=
  (match c.apiKey with
    | none => true
    | some k => !k.accountAssignmentScopeEnabled || account.id ∈ k.assignedAccountIds) &&
  match c.previousResponseId,c.preferredAccountId with
  | some _,some preferred => account.id = preferred
  | _,_ => true

end Stages

end CodexLb.Bridge
