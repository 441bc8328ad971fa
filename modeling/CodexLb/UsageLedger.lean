import CodexLb.KeyedTable
import CodexLb.LimitWindows
import Mathlib.Data.List.Sort

/-!
# The API-key usage ledger

The rows that `ApiKeysRepository` reads and writes, its statements as pure
functions of the committed tables, and the service transactions built from
them. An UPDATE with RETURNING is a Boolean (some row matched) and the new
tables. A rollback is the store the transaction started from; a lazy window
reset commits on its own, so it survives a later rollback.

`Effect` also keeps the result of every `adjust_reserved_usage` call, which
the callers discard. Pricing goes through floating point, so the cost of a
request is a parameter. Foreign keys, `created_at` and the lock-retry loops of
the service are left out.
-/
namespace CodexLb.UsageLedger
open LimitWindows

structure ApiKey where
  id : String
  isActive : Bool
  expiresAt : Option ℤ
  lastUsedAt : Option ℤ
  deriving DecidableEq, Repr

structure ApiKeyLimit where
  id : ℕ
  apiKeyId : String
  limitType : LimitType
  limitWindow : LimitWindow
  maxValue : ℤ
  currentValue : ℤ
  modelFilter : Option String
  resetAt : ℤ
  deriving DecidableEq, Repr

structure ReservationItem where
  limitId : ℕ
  limitType : LimitType
  reservedDelta : ℤ
  expectedResetAt : ℤ
  actualDelta : Option ℤ
  deriving DecidableEq, Repr

inductive ReservationStatus where
  | reserved | settling | finalized | failed | released
  deriving DecidableEq, Repr

/-- The items carry the table's unique constraint on (reservation, limit). -/
structure UsageReservation where
  id : String
  apiKeyId : String
  model : String
  status : ReservationStatus
  inputTokens : Option ℤ
  outputTokens : Option ℤ
  cachedInputTokens : Option ℤ
  costMicrodollars : Option ℤ
  updatedAt : ℤ
  items : KeyedTable ReservationItem.limitId

structure Store where
  apiKeys : KeyedTable ApiKey.id
  limits : KeyedTable ApiKeyLimit.id
  reservations : KeyedTable UsageReservation.id

namespace Store

variable (s : Store)

def limitsOf (keyId : String) : List ApiKeyLimit :=
  s.limits.rows.filter fun l => l.apiKeyId = keyId

/-- UPDATE api_key_limits SET .. WHERE .. RETURNING id. -/
def updateLimits (p : ApiKeyLimit → Bool) (f : ApiKeyLimit → ApiKeyLimit)
    (hf : ∀ l, (f l).id = l.id) : Bool × Store :=
  (s.limits.rows.any p,{s with limits := s.limits.update p f hf})

/-- UPDATE api_key_usage_reservations SET .. WHERE .. RETURNING id. -/
def updateReservations (p : UsageReservation → Bool)
    (f : UsageReservation → UsageReservation) (hf : ∀ r, (f r).id = r.id) : Bool × Store :=
  (s.reservations.rows.any p,{s with reservations := s.reservations.update p f hf})

def resetLimit (limitId : ℕ) (expectedResetAt newResetAt : ℤ) : Bool × Store :=
  s.updateLimits (fun l => l.id = limitId && l.resetAt = expectedResetAt)
    (fun l => {l with currentValue := 0,resetAt := newResetAt}) (fun _ => rfl)

structure ReservationResult where
  success : Bool
  limitId : ℕ
  currentValue : Option ℤ
  maxValue : Option ℤ
  resetAt : Option ℤ
  deriving DecidableEq, Repr

def snapshot (success : Bool) (limitId : ℕ) : ReservationResult :=
  let row := s.limits.find? limitId
  ⟨success,limitId,row.map (·.currentValue),row.map (·.maxValue),row.map (·.resetAt)⟩

def tryReserveUsage (limitId : ℕ) (delta expectedResetAt : ℤ) : ReservationResult × Store :=
  if delta ≤ 0 then (s.snapshot true limitId,s) else
    let u := s.updateLimits
      (fun l => l.id = limitId && l.resetAt = expectedResetAt &&
        decide (l.currentValue+delta ≤ l.maxValue))
      (fun l => {l with currentValue := l.currentValue+delta}) (fun _ => rfl)
    (u.2.snapshot u.1 limitId,u.2)

/-- The guard on `current_value` is part of the statement only for a negative
delta. -/
def adjustReservedUsage (limitId : ℕ) (delta expectedResetAt : ℤ) : Bool × Store :=
  s.updateLimits
    (fun l => l.id = limitId && l.resetAt = expectedResetAt &&
      (decide (0 ≤ delta) || decide (-delta ≤ l.currentValue)))
    (fun l => {l with currentValue := l.currentValue+delta}) (fun _ => rfl)

/-- `none` is an integrity error: the id is taken, or two items share a limit. -/
def createUsageReservation (id keyId model : String) (items : List ReservationItem)
    (now : ℤ) : Option Store :=
  if h : (∀ r ∈ s.reservations.rows, r.id ≠ id) ∧ (items.map (·.limitId)).Nodup then
    let r : UsageReservation := ⟨id,keyId,model,.reserved,none,none,none,none,now,⟨items,h.2⟩⟩
    some {s with reservations := s.reservations.insert r h.1}
  else none

def transitionUsageReservationStatus (id : String)
    (expectedStatus newStatus : ReservationStatus) (now : ℤ) : Bool × Store :=
  s.updateReservations (fun r => r.id = id && r.status = expectedStatus)
    (fun r => {r with status := newStatus,updatedAt := now}) (fun _ => rfl)

def upsertActual (items : KeyedTable ReservationItem.limitId) (item : ReservationItem)
    (actualDelta : ℤ) : KeyedTable ReservationItem.limitId :=
  if h : ∀ q ∈ items.rows, q.limitId ≠ item.limitId then
    items.insert {item with actualDelta := some actualDelta} h
  else
    items.update (fun q => q.limitId = item.limitId)
      (fun q => {q with actualDelta := some actualDelta}) (fun _ => rfl)

def upsertReservationItemActual (id : String) (item : ReservationItem) (actualDelta : ℤ) : Store :=
  (s.updateReservations (fun r => r.id = id)
    (fun r => {r with items := upsertActual r.items item actualDelta}) (fun _ => rfl)).2

def settleUsageReservation (id : String) (status : ReservationStatus)
    (inputTokens outputTokens cachedInputTokens costMicrodollars : Option ℤ) (now : ℤ) : Store :=
  (s.updateReservations (fun r => r.id = id)
    (fun r => {r with
      status := status
      inputTokens := inputTokens
      outputTokens := outputTokens
      cachedInputTokens := cachedInputTokens
      costMicrodollars := costMicrodollars
      updatedAt := now}) (fun _ => rfl)).2

def touchUsageReservation (id : String) (now : ℤ) : Bool × Store :=
  s.updateReservations (fun r => r.id = id && r.status = .reserved)
    (fun r => {r with updatedAt := now}) (fun _ => rfl)

def updateLastUsed (keyId : String) (now : ℤ) : Store :=
  let keys := s.apiKeys.update (fun k => k.id = keyId)
    (fun k => {k with lastUsedAt := some now}) (fun _ => rfl)
  {s with apiKeys := keys}

end Store

inductive ApiKeyError where
  | invalid (message : String)
  | rateLimitExceeded (message : String) (resetAt : ℤ)
  | integrity
  deriving DecidableEq, Repr

structure UsageBudget where
  inputTokens : Option ℤ
  outputTokens : Option ℤ
  deriving DecidableEq, Repr

structure LimitRequest where
  keyId : String
  model : Option String
  serviceTier : Option String
  budget : Option UsageBudget
  deriving DecidableEq, Repr

/-- `_calculate_cost_microdollars`: model, input, output and cached input
tokens, service tier. -/
abbrev Pricing := String → ℤ → ℤ → ℤ → Option String → ℤ

def maxTokenBudget : ℤ := 8192
def defaultInputTokens : ℤ := maxTokenBudget
def defaultOutputTokens : ℤ := 2048
def unknownModelMicrodollars : ℤ := 2000000
def unknownModelBaseTokens : ℤ := maxTokenBudget*2

def ensureValidApiKeyRow : Option ApiKey → Except ApiKeyError ApiKey
  | none => .error (.invalid "Invalid API key")
  | some row => if row.isActive then .ok row else .error (.invalid "Invalid API key")

def checkNotExpired (row : ApiKey) (now : ℤ) : Except ApiKeyError Unit :=
  match row.expiresAt with
  | some t => if t < now then .error (.invalid "API key has expired") else .ok ()
  | none => .ok ()

/-- Every due limit of a row that was read is reset under compare-and-set; the
flag says that a reset was attempted, not that it matched. -/
def lazyResetExpiredLimits (now : ℤ) : List ApiKeyLimit → Store → Bool × Store
  | [],s => (false,s)
  | l::ls,s =>
    if now ≤ l.resetAt then lazyResetExpiredLimits now ls s else
      let r := s.resetLimit l.id l.resetAt (advanceLimitReset l.resetAt now l.limitWindow)
      (true,(lazyResetExpiredLimits now ls r.2).2)

def rateLimitExceededError (l : ApiKeyLimit) : ApiKeyError :=
  .rateLimitExceeded ("API key "++l.limitType.value++" "++l.limitWindow.value++" limit exceeded"++
    match l.modelFilter with
    | some m => if m = "" then "" else " for model "++m
    | none => "") l.resetAt

def limitAppliesForRequest (l : ApiKeyLimit) (requestModel : Option String) : Bool :=
  match l.modelFilter,requestModel with
  | none,_ => true
  | some _,none => false
  | some f,some m => f = m

def normalizeTokenBudget (value : Option ℤ) (default : ℤ) : ℤ :=
  match value with
  | none => default
  | some v => max 0 (min v maxTokenBudget)

/-- Input and output tokens after `_normalize_request_usage_budget`. -/
def normalizeRequestUsageBudget : Option UsageBudget → ℤ × ℤ
  | none => (defaultInputTokens,defaultOutputTokens)
  | some b => (normalizeTokenBudget b.inputTokens defaultInputTokens,
      normalizeTokenBudget b.outputTokens defaultOutputTokens)

/-- The float quotient is exact here: the product stays below 2^53 and the
divisor is a power of two, so `ceil` is the integer ceiling. -/
def unknownModelReserveCostBudget (inputTokens outputTokens : ℤ) : ℤ :=
  let tokenBudget := max 0 inputTokens+max 0 outputTokens
  if tokenBudget ≤ 0 then 0 else -(-(unknownModelMicrodollars*tokenBudget)/unknownModelBaseTokens)

def reserveCostBudget (price : Pricing) (model serviceTier : Option String)
    (inputTokens outputTokens : ℤ) : ℤ :=
  match model with
  | none => unknownModelReserveCostBudget inputTokens outputTokens
  | some m =>
    if m = "" then unknownModelReserveCostBudget inputTokens outputTokens else
    let cost := price m inputTokens outputTokens 0 serviceTier
    if 0 < cost then cost else unknownModelReserveCostBudget inputTokens outputTokens

def reserveBudgetForLimitType (price : Pricing) (req : LimitRequest) (budget : ℤ × ℤ) :
    LimitType → ℤ
  | .totalTokens => budget.1+budget.2
  | .inputTokens => budget.1
  | .outputTokens => budget.2
  | .costUsd => reserveCostBudget price req.model req.serviceTier budget.1 budget.2
  | .credits => 0

def reserveDeltaForLimit (price : Pricing) (req : LimitRequest) (budget : ℤ × ℤ)
    (l : ApiKeyLimit) : ℤ :=
  let remaining := l.maxValue-l.currentValue
  if remaining ≤ 0 then 0 else min remaining (reserveBudgetForLimitType price req budget l.limitType)

/-- The loop over the key's limits, before the reservation row exists. -/
def reserveItems (price : Pricing) (req : LimitRequest) (budget : ℤ × ℤ) :
    List ApiKeyLimit → Store → Except ApiKeyError (List ReservationItem × Store)
  | [],s => .ok ([],s)
  | l::ls,s =>
    if limitAppliesForRequest l req.model = false then reserveItems price req budget ls s else
    if l.maxValue ≤ l.currentValue then .error (rateLimitExceededError l) else
    let delta := reserveDeltaForLimit price req budget l
    let r := if 0 < delta then s.tryReserveUsage l.id delta l.resetAt
      else (s.snapshot true l.id,s)
    if r.1.success = false then .error (rateLimitExceededError l) else
    match reserveItems price req budget ls r.2 with
    | .error e => .error e
    | .ok (items,t) => .ok (⟨l.id,l.limitType,delta,l.resetAt,none⟩::items,t)

structure ReservationData where
  reservationId : String
  keyId : String
  model : String
  deriving DecidableEq, Repr

/-- One attempt to reserve. The store is returned on every path: a failure
keeps the window resets that were already committed and nothing else. -/
def enforceLimitsForRequestOnce (price : Pricing) (req : LimitRequest) (reservationId : String)
    (now : ℤ) (s : Store) : Except ApiKeyError ReservationData × Store :=
  match ensureValidApiKeyRow (s.apiKeys.find? req.keyId) with
  | .error e => (.error e,s)
  | .ok row =>
    match checkNotExpired row now with
    | .error e => (.error e,s)
    | .ok _ =>
      let lazy := lazyResetExpiredLimits now (s.limitsOf req.keyId) s
      match (if lazy.1 then ensureValidApiKeyRow (lazy.2.apiKeys.find? req.keyId)
        else .ok row) with
      | .error e => (.error e,lazy.2)
      | .ok refreshed =>
        match checkNotExpired refreshed now with
        | .error e => (.error e,lazy.2)
        | .ok _ =>
          let limits := if lazy.1 then lazy.2.limitsOf req.keyId else s.limitsOf req.keyId
          let budget := normalizeRequestUsageBudget req.budget
          match reserveItems price req budget limits lazy.2 with
          | .error e => (.error e,lazy.2)
          | .ok (items,t) =>
            match t.createUsageReservation reservationId req.keyId
              (req.model.getD "") items now with
            | none => (.error .integrity,lazy.2)
            | some u => (.ok ⟨reservationId,req.keyId,req.model.getD ""⟩,u)

/-- The observable result of one `adjust_reserved_usage` call: the row's
`reset_at` just before the statement and whether the statement matched. -/
structure Adjustment where
  limitId : ℕ
  delta : ℤ
  expectedResetAt : ℤ
  rowResetAt : Option ℤ
  applied : Bool
  deriving DecidableEq, Repr

structure Effect where
  store : Store
  adjustments : List Adjustment

def Effect.adjust (e : Effect) (limitId : ℕ) (delta expectedResetAt : ℤ) : Effect :=
  let r := e.store.adjustReservedUsage limitId delta expectedResetAt
  ⟨r.2,e.adjustments++[⟨limitId,delta,expectedResetAt,
    (e.store.limits.find? limitId).map (·.resetAt),r.1⟩]⟩

def computeIncrementForLimitType (inputTokens outputTokens costMicrodollars : ℤ) : LimitType → ℤ
  | .totalTokens => inputTokens+outputTokens
  | .inputTokens => inputTokens
  | .outputTokens => outputTokens
  | .costUsd => costMicrodollars
  | .credits => 0

def settleItem (id : String) (actual : LimitType → ℤ) (e : Effect) (item : ReservationItem) :
    Effect :=
  let delta := actual item.limitType-item.reservedDelta
  let adjusted := if delta ≠ 0 then e.adjust item.limitId delta item.expectedResetAt else e
  ⟨adjusted.store.upsertReservationItemActual id item (actual item.limitType),
    adjusted.adjustments⟩

/-- One iteration of the release loop, which adjusts without testing for zero. -/
def releaseItem (id : String) (e : Effect) (item : ReservationItem) : Effect :=
  let adjusted := e.adjust item.limitId (-item.reservedDelta) item.expectedResetAt
  ⟨adjusted.store.upsertReservationItemActual id item 0,adjusted.adjustments⟩

structure SettleRequest where
  reservationId : String
  model : String
  inputTokens : Option ℤ
  outputTokens : Option ℤ
  cachedInputTokens : Option ℤ
  serviceTier : Option String
  deriving DecidableEq, Repr

def SettleRequest.cost (price : Pricing) (q : SettleRequest) : ℤ :=
  price q.model (q.inputTokens.getD 0) (q.outputTokens.getD 0) (q.cachedInputTokens.getD 0)
    q.serviceTier

def SettleRequest.actual (price : Pricing) (q : SettleRequest) : LimitType → ℤ :=
  computeIncrementForLimitType (q.inputTokens.getD 0) (q.outputTokens.getD 0) (q.cost price)

/-- `_settle_usage_reservation`; finalize and fail differ in `status` only. -/
def settle (price : Pricing) (q : SettleRequest) (status : ReservationStatus) (now : ℤ)
    (s : Store) : Effect :=
  match s.reservations.find? q.reservationId with
  | none => ⟨s,[]⟩
  | some r =>
    if r.status ≠ .reserved then ⟨s,[]⟩ else
    let claimed := s.transitionUsageReservationStatus q.reservationId .reserved .settling now
    if claimed.1 = false then ⟨s,[]⟩ else
    let e := r.items.rows.foldl (settleItem q.reservationId (q.actual price)) ⟨claimed.2,[]⟩
    ⟨(e.store.settleUsageReservation q.reservationId status q.inputTokens q.outputTokens
      q.cachedInputTokens (some (q.cost price)) now).updateLastUsed r.apiKeyId now,
      e.adjustments⟩

def finalizeUsageReservation (price : Pricing) (q : SettleRequest) (now : ℤ) (s : Store) : Effect :=
  settle price q .finalized now s

def failUsageReservation (price : Pricing) (q : SettleRequest) (now : ℤ) (s : Store) : Effect :=
  settle price q .failed now s

def releaseUsageReservationOnce (id : String) (now : ℤ) (s : Store) : Effect :=
  match s.reservations.find? id with
  | none => ⟨s,[]⟩
  | some r =>
    if r.status ≠ .reserved then ⟨s,[]⟩ else
    let claimed := s.transitionUsageReservationStatus id .reserved .released now
    if claimed.1 = false then ⟨s,[]⟩ else
    let e := r.items.rows.foldl (releaseItem id) ⟨claimed.2,[]⟩
    ⟨e.store.settleUsageReservation id .released none none none none now,e.adjustments⟩

def isStale (cutoff : ℤ) (r : UsageReservation) : Bool :=
  r.status = .reserved && decide (r.updatedAt < cutoff)

def staleReservationIds (cutoff : ℤ) (batchSize : ℕ) (s : Store) : List String :=
  (((s.reservations.rows.filter (isStale cutoff)).insertionSort
    fun a b => a.updatedAt ≤ b.updatedAt).take batchSize).map (·.id)

/-- The claim and the item loop for one id; the items were read before the
first claim of the batch. -/
def releaseStaleOne (cutoff now : ℤ) (items : String → List ReservationItem) (e : Effect)
    (id : String) : Effect :=
  let claimed := e.store.updateReservations (fun r => r.id = id && isStale cutoff r)
    (fun r => {r with
      status := .released
      inputTokens := none
      outputTokens := none
      cachedInputTokens := none
      costMicrodollars := none
      updatedAt := now}) (fun _ => rfl)
  if claimed.1 = false then e else (items id).foldl (releaseItem id) ⟨claimed.2,e.adjustments⟩

def itemsOf (s : Store) (id : String) : List ReservationItem :=
  match s.reservations.find? id with
  | none => []
  | some r => r.items.rows

def releaseStaleBatch (cutoff : ℤ) (batchSize : ℕ) (now : ℤ) (s : Store) : Effect :=
  (staleReservationIds cutoff batchSize s).foldl (releaseStaleOne cutoff now (itemsOf s)) ⟨s,[]⟩

def expiredLimitResetBatchSize : ℕ := 500

def expiredLimits (now : ℤ) (s : Store) : List ApiKeyLimit :=
  ((s.limits.rows.filter fun l => l.resetAt < now).insertionSort fun a b =>
    a.resetAt < b.resetAt ∨ a.resetAt = b.resetAt ∧ a.id ≤ b.id).take expiredLimitResetBatchSize

def resetExpiredBatch (now : ℤ) (s : Store) : Store :=
  (expiredLimits now s).foldl (fun t l =>
    (t.resetLimit l.id l.resetAt (advanceLimitReset l.resetAt now l.limitWindow)).2) s

/-- Every transaction of the ledger, with the clock readings it uses. A
`resetLimit` carries the row as some earlier read saw it. -/
inductive Transaction where
  | reserve (req : LimitRequest) (reservationId : String) (now : ℤ)
  | finalize (q : SettleRequest) (now : ℤ)
  | fail (q : SettleRequest) (now : ℤ)
  | release (reservationId : String) (now : ℤ)
  | releaseStale (cutoff : ℤ) (batchSize : ℕ) (now : ℤ)
  | resetLimit (read : ApiKeyLimit) (now : ℤ)
  | resetExpired (now : ℤ)
  | touch (reservationId : String) (now : ℤ)

def Transaction.commit (price : Pricing) (s : Store) : Transaction → Effect
  | .reserve req id now => ⟨(enforceLimitsForRequestOnce price req id now s).2,[]⟩
  | .finalize q now => finalizeUsageReservation price q now s
  | .fail q now => failUsageReservation price q now s
  | .release id now => releaseUsageReservationOnce id now s
  | .releaseStale cutoff batchSize now => releaseStaleBatch cutoff batchSize now s
  | .resetLimit read now => ⟨(lazyResetExpiredLimits now [read] s).2,[]⟩
  | .resetExpired now => ⟨resetExpiredBatch now s,[]⟩
  | .touch id now => ⟨(s.touchUsageReservation id now).2,[]⟩

end CodexLb.UsageLedger
