import CodexLb.Dict
import CodexLb.Runs

/-!
# Token refresh across processes

`AuthManager.ensure_fresh` with its single flight, `refresh_account`,
`_ensure_chatgpt_account_id` and `UsageUpdater._sync_plan_type`, on one account
row that any number of processes share. A step is what one coroutine does
between two awaits, one answer of the token endpoint, or one commit. Account
objects live in a heap: a refresh changes its object in place, so every holder
of the object sees it.

A refresh token is its issue number and `none` is the empty token; decryption
inverts encryption and fingerprints do not collide. The two write-back paths
may start on any object at any time. Deleting or re-importing the account,
cancelling a refresh task and the admission lease are left out.
-/
namespace CodexLb.TokenRefresh

inductive AccountStatus where
  | active | rateLimited | quotaExceeded | paused | deactivated
  deriving DecidableEq, Repr

structure Account where
  accessToken : String
  refreshToken : Option ℕ
  idToken : String
  lastRefresh : ℤ
  planType : String
  email : String
  chatgptAccountId : Option String
  status : AccountStatus
  deactivationReason : Option String
  resetAt : Option ℤ
  deriving DecidableEq, Repr

/-- Text primitives, the claims of an id token, and the two settings. -/
structure Env where
  strip : String → String
  lower : String → String
  chatgptAccountIdFromIdToken : String → Option String
  tokenRefreshInterval : ℤ
  refreshFailureCooldown : ℤ

def truthy : Option String → Bool
  | none => false
  | some t => t ≠ ""

def accountPlanTypes : List String :=
  ["free","plus","pro","prolite","team","business","enterprise","edu"]

def cleanPlanType (env : Env) (value : Option String) : Option String :=
  (value.map env.strip).filter (· ≠ "")

def canonicalizeAccountPlanType (env : Env) (value : Option String) : Option String :=
  (cleanPlanType env value).map fun cleaned =>
    if env.lower cleaned ∈ accountPlanTypes then env.lower cleaned else cleaned

def coerceAccountPlanType (env : Env) (value : Option String) (default : String) : String :=
  match cleanPlanType env value with
  | none => default
  | some cleaned => (canonicalizeAccountPlanType env (some cleaned)).getD default

structure RefreshError where
  code : String
  message : String
  isPermanent : Bool
  transportError : Bool
  deriving DecidableEq, Repr

def permanentFailureCodes : List (String × String) :=
  [("refresh_token_expired","Refresh token expired - re-login required"),
    ("refresh_token_reused","Refresh token was reused - re-login required"),
    ("refresh_token_invalidated","Refresh token was revoked - re-login required"),
    ("token_expired","Authentication token expired - re-login required"),
    ("account_deactivated","Account has been deactivated"),
    ("account_suspended","Account has been suspended"),
    ("account_deleted","Account has been deleted")]

def RefreshError.reason (e : RefreshError) : String :=
  (permanentFailureCodes.lookup e.code).getD e.message

structure TokenRefreshResult where
  accessToken : String
  refreshToken : ℕ
  idToken : String
  accountId : Option String
  planType : Option String
  email : Option String
  deriving DecidableEq, Repr

def defaultPlan : String := "unknown"

/-- The assignments of `refresh_account` to its account object. -/
def Account.applyRefresh (env : Env) (a : Account) (r : TokenRefreshResult) (now : ℤ) : Account :=
  {a with
    accessToken := r.accessToken
    refreshToken := some r.refreshToken
    idToken := r.idToken
    lastRefresh := now
    chatgptAccountId := if truthy r.accountId then r.accountId else a.chatgptAccountId
    planType :=
      let current := if a.planType = "" then defaultPlan else a.planType
      match r.planType with
      | some p => coerceAccountPlanType env (some p) current
      | none => current
    email := if truthy r.email then r.email.getD a.email else a.email}

/-- The arguments of `update_tokens`, evaluated when the call is made. -/
structure TokenUpdate where
  accessToken : String
  refreshToken : Option ℕ
  idToken : String
  lastRefresh : ℤ
  planType : Option String
  email : Option String
  chatgptAccountId : Option String
  deriving DecidableEq, Repr

def Account.tokenUpdate (a : Account) : TokenUpdate :=
  ⟨a.accessToken,a.refreshToken,a.idToken,a.lastRefresh,some a.planType,some a.email,
    a.chatgptAccountId⟩

def Account.updateTokens (row : Account) (u : TokenUpdate) : Account :=
  {row with
    accessToken := u.accessToken
    refreshToken := u.refreshToken
    idToken := u.idToken
    lastRefresh := u.lastRefresh
    planType := u.planType.getD row.planType
    email := u.email.getD row.email
    chatgptAccountId := u.chatgptAccountId.orElse fun _ => row.chatgptAccountId}

def Account.updateStatus (row : Account) (status : AccountStatus) (reason : Option String) :
    Account := {row with status := status,deactivationReason := reason,resetAt := none}

/-- The plan type `_sync_plan_type` moves to. -/
def Account.nextPlanType (env : Env) (a : Account) (planType : Option String) : String :=
  coerceAccountPlanType env planType (if a.planType = "" then "free" else a.planType)

def shouldRefresh (env : Env) (lastRefresh now : ℤ) : Bool :=
  env.tokenRefreshInterval < now-lastRefresh

/-- Where a `refresh_account` task is. `token` is the refresh token it sent. -/
inductive Phase where
  | created
  | sent (token : ℕ)
  | answered (token : ℕ) (result : TokenRefreshResult)
  | writing (token : ℕ) (update : TokenUpdate)
  | rejected (token : ℕ) (error : RefreshError)
  | condemned (token : ℕ) (error : RefreshError)
  | returned (object : ℕ)
  | raised (error : RefreshError)
  deriving DecidableEq, Repr

def Phase.done : Phase → Bool
  | .returned _ | .raised _ => true
  | _ => false

def Phase.isReturned : Phase → Bool
  | .returned _ => true
  | _ => false

/-- `attached` says that the account object belongs to the session of the
repository the task uses, so that `session.get` answers from its identity map. -/
structure Task where
  process : ℕ
  object : ℕ
  key : Option ℕ
  attached : Bool
  phase : Phase
  completed : Bool
  deriving DecidableEq, Repr

structure AccountObject where
  process : ℕ
  account : Account
  deriving DecidableEq, Repr

/-- `redeemedBy` is the token endpoint's record of which task used a token
last; `writes` are the write-backs that have been started. -/
structure World where
  row : Account
  issued : ℕ
  redeemedBy : Dict ℕ ℕ
  objects : List AccountObject
  tasks : List Task
  writes : List (Option TokenUpdate)
  inflight : Dict (ℕ × Option ℕ) ℕ
  recentFailures : Dict (ℕ × Option ℕ) (ℤ × RefreshError)

inductive Event where
  | load (process : ℕ)
  | ensureFresh (object : ℕ) (attached force : Bool) (now clock : ℤ)
  | start (task : ℕ)
  | grant (task : ℕ) (accessToken idToken : String) (accountId planType email : Option String)
  | reject (task : ℕ) (error : RefreshError)
  | fail (task : ℕ) (error : RefreshError)
  | resume (task : ℕ) (now : ℤ)
  | commit (task : ℕ)
  | reread (task : ℕ)
  | deactivate (task : ℕ)
  | complete (task : ℕ) (clock : ℤ)
  | ensureChatgptAccountId (object : ℕ)
  | syncPlanType (object : ℕ) (planType : Option String)
  | commitWrite (write : ℕ)
  deriving DecidableEq, Repr

namespace World

variable (w : World)

def setPhase (i : ℕ) (t : Task) (p : Phase) : World :=
  {w with tasks := w.tasks.set i {t with phase := p}}

def setAccount (i : ℕ) (o : AccountObject) (a : Account) : World :=
  {w with objects := w.objects.set i {o with account := a}}

def isDone (i : ℕ) : Bool := (w.tasks[i]?.map (·.phase.done)).getD false

def hasReturned (i : ℕ) : Bool := (w.tasks[i]?.map (·.phase.isReturned)).getD false

/-- `_purge_stale_versions`: forget failures and finished tasks of the process
under any other token. -/
def purgeStaleVersions (key : ℕ × Option ℕ) : World :=
  {w with
    recentFailures := w.recentFailures.filter fun k _ => k.1 ≠ key.1 || k = key
    inflight := w.inflight.filter fun k t => k.1 ≠ key.1 || k = key || !w.isDone t}

def createTask (o : AccountObject) (object : ℕ) (attached : Bool) : World :=
  {w with
    tasks := w.tasks++[⟨o.process,object,o.account.refreshToken,attached,.created,false⟩]
    inflight := w.inflight.set (o.process,o.account.refreshToken) w.tasks.length}

/-- A live task is joined, and so is one that has returned and is not cleaned
up yet. -/
def joinOrCreate (o : AccountObject) (object : ℕ) (attached : Bool) : World :=
  match w.inflight.get? (o.process,o.account.refreshToken) with
  | none => w.createTask o object attached
  | some t =>
    if w.hasReturned t then w else if w.isDone t then w.createTask o object attached else w

/-- `_RefreshSingleflight.run` up to the await of the shared task. A cached
failure that has not expired raises. -/
def singleflightRun (o : AccountObject) (object : ℕ) (attached : Bool) (clock : ℤ) : World :=
  let key := (o.process,o.account.refreshToken)
  let w := w.purgeStaleVersions key
  match w.recentFailures.get? key with
  | none => w.joinOrCreate o object attached
  | some (expiresAt,_) =>
    if clock < expiresAt then w
    else
      let failures := w.recentFailures.pop key
      ({w with recentFailures := failures}).joinOrCreate o object attached

/-- `_complete`, scheduled when a task is done. -/
def completeTask (env : Env) (w : World) (i : ℕ) (t : Task) (clock : ℤ) : World :=
  let key := (t.process,t.key)
  let ttl := max 0 env.refreshFailureCooldown
  {w with
    tasks := w.tasks.set i {t with completed := true}
    inflight := if w.inflight.get? key = some i then w.inflight.pop key else w.inflight
    recentFailures :=
      match t.phase with
      | .raised e =>
        if 0 < ttl && !e.transportError then w.recentFailures.set key (clock+ttl,e)
        else w.recentFailures.pop key
      | _ => w.recentFailures.pop key}

end World

def step (env : Env) (w : World) : Event → Option World
  | .load p => some {w with objects := w.objects++[⟨p,w.row⟩]}
  | .ensureFresh i attached force now clock => do
      let o ← w.objects[i]?
      if force || shouldRefresh env o.account.lastRefresh now then
        return w.singleflightRun o i attached clock
      else return w
  | .start i => do
      let t ← w.tasks[i]?
      let o ← w.objects[t.object]?
      match t.phase,o.account.refreshToken with
      | .created,some token => some (w.setPhase i t (.sent token))
      | .created,none => some (w.setPhase i t (.returned t.object))
      | _,_ => none
  | .grant i accessToken idToken accountId planType email => do
      let t ← w.tasks[i]?
      match t.phase with
      | .sent token =>
        let result := ⟨accessToken,w.issued,idToken,accountId,planType,email⟩
        let answered := w.setPhase i t (.answered token result)
        some {answered with issued := w.issued+1,redeemedBy := w.redeemedBy.set token i}
      | _ => none
  | .reject i e => do
      let t ← w.tasks[i]?
      match t.phase with
      | .sent token => if e.isPermanent then some (w.setPhase i t (.rejected token e)) else none
      | _ => none
  | .fail i e => do
      let t ← w.tasks[i]?
      match t.phase with
      | .sent _ => if e.isPermanent then none else some (w.setPhase i t (.raised e))
      | _ => none
  | .resume i now => do
      let t ← w.tasks[i]?
      let o ← w.objects[t.object]?
      match t.phase with
      | .answered token result =>
        let account := o.account.applyRefresh env result now
        some ((w.setAccount t.object o account).setPhase i t (.writing token account.tokenUpdate))
      | _ => none
  | .commit i => do
      let t ← w.tasks[i]?
      match t.phase with
      | .writing _ update =>
        let committed := w.setPhase i t (.returned t.object)
        some {committed with row := w.row.updateTokens update}
      | _ => none
  | .reread i => do
      let t ← w.tasks[i]?
      let o ← w.objects[t.object]?
      match t.phase with
      | .rejected token e =>
        let latest := if t.attached then o.account else w.row
        if latest.refreshToken ≠ o.account.refreshToken then
          let found := w.setPhase i t (.returned w.objects.length)
          some {found with objects := w.objects++[⟨t.process,latest⟩]}
        else some (w.setPhase i t (.condemned token e))
      | _ => none
  | .deactivate i => do
      let t ← w.tasks[i]?
      let o ← w.objects[t.object]?
      match t.phase with
      | .condemned _ e =>
        let account := {o.account with
          status := .deactivated
          deactivationReason := some e.reason}
        let failed := (w.setAccount t.object o account).setPhase i t (.raised e)
        some {failed with row := w.row.updateStatus .deactivated (some e.reason)}
      | _ => none
  | .complete i clock => do
      let t ← w.tasks[i]?
      if t.phase.done && !t.completed then return w.completeTask env i t clock else none
  | .ensureChatgptAccountId i => do
      let o ← w.objects[i]?
      let found := env.chatgptAccountIdFromIdToken o.account.idToken
      if truthy o.account.chatgptAccountId || !truthy found then return w
      else
        let account := {o.account with chatgptAccountId := found}
        let changed := w.setAccount i o account
        return {changed with writes := w.writes++[some account.tokenUpdate]}
  | .syncPlanType i planType => do
      let o ← w.objects[i]?
      let next := o.account.nextPlanType env planType
      if next = o.account.planType then return w
      else
        let account := {o.account with planType := next}
        let changed := w.setAccount i o account
        return {changed with writes := w.writes++[some account.tokenUpdate]}
  | .commitWrite i =>
    match w.writes[i]? with
    | some (some update) =>
      let row := w.row.updateTokens update
      some {w with row := row,writes := w.writes.set i none}
    | _ => none

/-- The account as it was imported: one token issued, nothing running. -/
structure Initial (w : World) : Prop where
  issued : ∀ n, w.row.refreshToken = some n → n < w.issued
  redeemedBy : w.redeemedBy = Dict.empty
  objects : w.objects = []
  tasks : w.tasks = []
  writes : w.writes = []

end CodexLb.TokenRefresh
