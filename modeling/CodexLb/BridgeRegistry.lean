import CodexLb.Dict

/-!
# The registry of HTTP bridge sessions

The maps `ProxyService` keeps for its upstream websocket sessions: sessions by
key, the turn-state and previous-response indexes, and the session objects. The
operations on them are the ones every lookup, registration and close is built
from. The object a key is mapped to may be closed or moved to another account
by its own tasks at any time; the maps change only under the bridge lock.

A session keeps what the lookup reads of it. `pendingCount` is what
`_http_bridge_pending_count` returns and `visibleRequests` what
`_http_bridge_session_has_visible_requests` does. Headers, models, sockets,
metrics and logs are left out.
-/
namespace CodexLb.Bridge

inductive Strength where
  | hard | soft
  deriving DecidableEq, Repr

structure SessionKey where
  affinityKind : String
  affinityKey : String
  apiKeyId : Option String
  strength : Strength
  deriving DecidableEq, Repr

def SessionKey.make (affinityKind affinityKey : String) (apiKeyId : Option String) : SessionKey :=
  ⟨affinityKind,affinityKey,apiKeyId,
    if affinityKind ∈ ["turn_state_header","session_header"] then .hard else .soft⟩

structure ApiKeyData where
  id : String
  accountAssignmentScopeEnabled : Bool
  assignedAccountIds : List String
  deriving DecidableEq, Repr

/-- `active` is `status == ACTIVE`. -/
structure Account where
  id : String
  active : Bool
  deriving DecidableEq, Repr

structure Session where
  key : SessionKey
  account : Account
  closed : Bool
  retireAfterDrain : Bool
  visibleRequests : Bool
  pendingCount : ℕ
  lastUsedAt : ℤ
  idleTtlSeconds : ℤ
  codexSession : Bool
  downstreamTurnStateAliases : List String
  previousResponseIds : List String
  deriving DecidableEq, Repr

/-- The fields a session's own tasks write without the bridge lock. -/
structure SessionUpdate where
  account : Account
  closed : Bool
  retireAfterDrain : Bool
  visibleRequests : Bool
  pendingCount : ℕ
  lastUsedAt : ℤ
  deriving DecidableEq, Repr

variable (s : Session)

def Session.apply (u : SessionUpdate) : Session :=
  {s with
    account := u.account
    closed := u.closed
    retireAfterDrain := u.retireAfterDrain
    visibleRequests := u.visibleRequests
    pendingCount := u.pendingCount
    lastUsedAt := u.lastUsedAt}

def Session.usable : Bool := !s.closed && s.account.active

def Session.retiringWithVisibleRequests : Bool :=
  s.retireAfterDrain && s.visibleRequests

def Session.allowsApiKey : Option ApiKeyData → Bool
  | none => true
  | some k => !k.accountAssignmentScopeEnabled || s.account.id ∈ k.assignedAccountIds

def Session.reusableForRequest (key : SessionKey)
    (incomingTurnState previousResponseId : Option String) : Bool :=
  if s.retireAfterDrain then false
  else if key.affinityKind ≠ "prompt_cache" then true
  else if incomingTurnState ≠ none then true
  else if previousResponseId ≠ none then true
  else !s.codexSession

def Session.matchesPreferredAccount
    (previousResponseId preferredAccountId : Option String) : Bool :=
  match previousResponseId,preferredAccountId with
  | some _,some account => s.account.id = account
  | _,_ => true

/-- An index entry is scoped by the API key that registered it. -/
abbrev AliasKey := String × Option String

structure Registry where
  sessions : Dict SessionKey ℕ
  turnStateIndex : Dict AliasKey SessionKey
  previousResponseIndex : Dict AliasKey SessionKey
  heap : Dict ℕ Session

namespace Registry

def empty : Registry := ⟨Dict.empty,Dict.empty,Dict.empty,Dict.empty⟩

def session? (r : Registry) (key : SessionKey) : Option (ℕ × Session) :=
  (r.sessions.get? key).bind fun sid => (r.heap.get? sid).map fun s => (sid,s)

def modify (r : Registry) (sid : ℕ) (f : Session → Session) : Registry :=
  match r.heap.get? sid with
  | some s => {r with heap := r.heap.set sid (f s)}
  | none => r

def put (r : Registry) (key : SessionKey) (sid : ℕ) : Registry :=
  {r with sessions := r.sessions.set key sid}

def pop (r : Registry) (key : SessionKey) : Registry := {r with sessions := r.sessions.pop key}

def popTurnState (r : Registry) (a : AliasKey) : Registry :=
  {r with turnStateIndex := r.turnStateIndex.pop a}

def popPreviousResponse (r : Registry) (a : AliasKey) : Registry :=
  {r with previousResponseIndex := r.previousResponseIndex.pop a}

def indexAliases (key : SessionKey) : List String → Dict AliasKey SessionKey → Dict AliasKey SessionKey
  | [],d => d
  | a::as,d => indexAliases key as (d.set (a,key.apiKeyId) key)

def registerAliases (r : Registry) (sid : ℕ) : Registry :=
  match r.heap.get? sid with
  | some s => {r with
      turnStateIndex := indexAliases s.key s.downstreamTurnStateAliases r.turnStateIndex}
  | none => r

def addAlias (s : Session) (turnState : String) : Session :=
  {s with downstreamTurnStateAliases := s.downstreamTurnStateAliases.insert turnState}

/-- `_promote_http_bridge_session_to_codex_affinity`. -/
def promoteToCodexAffinity (codexIdleTtlSeconds : ℤ) (r : Registry) (sid : ℕ) (turnState : String) :
    Registry :=
  r.modify sid fun s =>
    addAlias {s with
      codexSession := true
      idleTtlSeconds := max s.idleTtlSeconds codexIdleTtlSeconds} turnState

def popAll (apiKeyId : Option String) :
    List String → Dict AliasKey SessionKey → Dict AliasKey SessionKey
  | [],d => d
  | a::as,d => popAll apiKeyId as (d.pop (a,apiKeyId))

def unregisterTurnStates (r : Registry) (sid : ℕ) : Registry :=
  match r.heap.get? sid with
  | some s => {r with
      turnStateIndex := popAll s.key.apiKeyId s.downstreamTurnStateAliases r.turnStateIndex
      heap := r.heap.set sid {s with downstreamTurnStateAliases := []}}
  | none => r

def unregisterPreviousResponseIds (r : Registry) (sid : ℕ) : Registry :=
  match r.heap.get? sid with
  | some s => {r with
      previousResponseIndex := popAll s.key.apiKeyId s.previousResponseIds r.previousResponseIndex
      heap := r.heap.set sid {s with previousResponseIds := []}}
  | none => r

def markClosed (r : Registry) (sid : ℕ) : Registry := r.modify sid fun s => {s with closed := true}

/-- `_close_http_bridge_session` under the bridge lock. -/
def closeLocked (r : Registry) (sid : ℕ) : Registry :=
  ((r.markClosed sid).unregisterTurnStates sid).unregisterPreviousResponseIds sid

/-- `_register_http_bridge_turn_state`. -/
def registerTurnState (r : Registry) (sid : ℕ) (turnState : String) : Registry :=
  match r.heap.get? sid with
  | some s => if s.closed then r else (r.modify sid (addAlias · turnState)).registerAliases sid
  | none => r

/-- `_register_http_bridge_previous_response_id`; the id is stripped already. -/
def registerPreviousResponseId (r : Registry) (sid : ℕ) (responseId : String) : Registry :=
  match r.heap.get? sid with
  | some s =>
    if responseId = "" || s.closed ||
        (s.retireAfterDrain && decide (r.sessions.get? s.key ≠ some sid)) then r
    else
      {r with
        previousResponseIndex := r.previousResponseIndex.set (responseId,s.key.apiKeyId) s.key
        heap := r.heap.set sid
          {s with previousResponseIds := s.previousResponseIds.insert responseId}}
  | none => r

/-- Remove a session from the map if it is still the one under its key. -/
def popIfSame (r : Registry) (key : SessionKey) (sid : ℕ) : Registry :=
  if r.sessions.get? key = some sid then r.pop key else r

/-- The rows `_prune_http_bridge_sessions_locked` has still to look at, from the
next one whose pending count it awaits, and the keys collected by then. A closed
session is collected without an await. -/
def scanAhead (r : Registry) :
    List (SessionKey × ℕ) → List SessionKey → List (SessionKey × ℕ) × List SessionKey
  | [],stale => ([],stale)
  | (key,sid)::rows,stale =>
    match r.heap.get? sid with
    | none => scanAhead r rows stale
    | some s => if s.closed then scanAhead r rows (stale++[key]) else ((key,sid)::rows,stale)

/-- What the scan finds when it has the pending count of an open session. -/
def isStale (r : Registry) (now : ℤ) (sid : ℕ) : Bool :=
  (r.heap.get? sid).any fun s => s.pendingCount = 0 && s.idleTtlSeconds ≤ now-s.lastUsedAt

def pruneKey (r : Registry) (key : SessionKey) : Registry :=
  match r.sessions.get? key with
  | some sid => (r.pop key).closeLocked sid
  | none => r

/-- `_http_bridge_eviction_priority`: other sessions before codex sessions, then
the one used least recently. -/
def evictsBefore (s t : Session) : Bool :=
  if s.codexSession = t.codexSession then s.lastUsedAt ≤ t.lastUsedAt else t.codexSession

/-- The sessions found without pending requests after one more is looked at. -/
def weigh (r : Registry) (row : SessionKey × ℕ) (idle : List (SessionKey × ℕ)) :
    List (SessionKey × ℕ) :=
  if (r.heap.get? row.2).any fun s => s.pendingCount = 0 then idle++[row] else idle

/-- The session to evict first of the best one so far and the next one. -/
def better (r : Registry) : Option (SessionKey × ℕ) → SessionKey × ℕ → Option (SessionKey × ℕ)
  | none,q => some q
  | some b,q =>
    match r.heap.get? b.2,r.heap.get? q.2 with
    | some t,some s => if evictsBefore t s then some b else some q
    | _,_ => some b

/-- The first minimum among the sessions found without pending requests. -/
def evictionCandidate (r : Registry) (idle : List (SessionKey × ℕ)) : Option (SessionKey × ℕ) :=
  idle.foldl r.better none

end Registry

end CodexLb.Bridge
