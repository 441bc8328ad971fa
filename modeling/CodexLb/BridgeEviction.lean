import CodexLb.BridgeCapacity

/-!
# What eviction and pruning close

A session looks idle when its pending count is zero. The scans await the count of
one session after the other, and an evicted session is closed after the lock has
been given back, so that between the look and the close the session may get a
request. It also looks idle while a call has returned it and the caller has not
yet submitted the request.

`Watch` adds to the world which callers have submitted and which sessions have
been evicted. `Calm` excludes both: a scan looks only at sessions whose returned
requests are submitted, and a session that a scan has found idle is not handed
out and gets no request.
-/
namespace CodexLb.Bridge
open Runs Registry

structure Watch where
  world : World
  submitted : List ℕ
  evicted : List (ℕ × ℕ)

inductive Watched where
  | event (e : Event)
  | submit (i : ℕ)

def Phase.gives : Phase → Option ℕ
  | .returned sid _ => some sid
  | _ => none

def Phase.rows : Phase → List (SessionKey × ℕ)
  | .scanning _ _ rows _ | .weighing _ rows _ => rows
  | _ => []

def Phase.collected (r : Registry) : Phase → List ℕ
  | .scanning _ _ _ stale | .pruning _ _ stale => stale.filterMap r.sessions.get?
  | .weighing _ _ idle => idle.map Prod.snd
  | _ => []

/-- The session the next step of the call closes, if it was evicted or is pruned. -/
def Phase.closesNext (r : Registry) (evicted : List (ℕ × ℕ)) (i : ℕ) : Phase → Option ℕ
  | .closing _ (sid::_) .turnStates => if (i,sid) ∈ evicted then some sid else none
  | .pruning _ none (key::_) => r.sessions.get? key
  | _ => none

namespace World

/-- The session the eviction loop takes out of the map in this step. -/
def evictedBy (w : World) : Event → List (ℕ × ℕ)
  | .weigh i =>
    match w.calls.get? i with
    | some ⟨_,.weighing _ [row] idle⟩ =>
      ((w.registry.evictionCandidate (w.registry.weigh row idle)).map fun q => (i,q.2)).toList
    | _ => []
  | _ => []

def handsOut (w : World) : Event → Option ℕ
  | .reused i =>
    match w.calls.get? i with
    | some ⟨_,.reusing sid⟩ => some sid
    | _ => none
  | .joined i _ =>
    match w.calls.get? i with
    | some ⟨_,.waitingInflight _ f⟩ =>
      match (w.futures.get? f).map Future.state with
      | some (.result sid) => some sid
      | _ => none
    | _ => none
  | .proceed i =>
    match w.calls.get? i with
    | some ⟨_,.closing l [] _⟩ => l.sessionToReturnAfterClose
    | _ => none
  | .registered i => some i
  | _ => none

/-- The sessions a scan may pass in this step. When the lock is taken these are
closed ones: the count of any other is awaited first. -/
def lookedAt (w : World) : Event → List (SessionKey × ℕ)
  | .acquire _ _ => w.registry.sessions.rows.filter fun row =>
      (w.registry.heap.get? row.2).any Session.closed
  | .scan i | .weigh i => ((w.calls.get? i).map (·.phase.rows)).getD []
  | _ => []

end World

namespace Watch

def empty : Watch := ⟨.empty,[],[]⟩

def step (env : Env) (s : Watch) : Watched → Option Watch
  | .event e =>
    (Bridge.step env s.world e).map fun w => ⟨w,s.submitted,s.evicted++s.world.evictedBy e⟩
  | .submit i =>
    match s.world.calls.get? i with
    | some ⟨_,.returned _ _⟩ => some {s with submitted := i::s.submitted}
    | _ => none

/-- The session has no request: none is pending or queued, and every call that
has returned it has submitted its own. -/
def Idle (s : Watch) (sid : ℕ) : Prop :=
  (∀ n ∈ s.world.registry.pendingOf sid,n = 0) ∧
    ∀ q ∈ s.world.calls.rows,q.2.phase.gives = some sid → q.1 ∈ s.submitted

instance (s : Watch) (sid : ℕ) : Decidable (s.Idle sid) := by
  unfold Idle
  infer_instance

def looksIdle (s : Watch) (sid : ℕ) : Bool :=
  (s.world.registry.heap.get? sid).any fun x => x.closed || x.pendingCount = 0

/-- The sessions that are going to be pruned or evicted, or have been evicted. -/
def chosen (s : Watch) : List ℕ :=
  s.evicted.map Prod.snd++s.world.calls.rows.flatMap fun q => q.2.phase.collected s.world.registry

def Calm (s : Watch) : Event → Prop
  | .session sid u => sid ∈ s.chosen → u.pendingCount = 0
  | e => (∀ sid ∈ s.world.handsOut e,sid ∉ s.chosen) ∧
      ∀ row ∈ s.world.lookedAt e,s.looksIdle row.2 = true → s.Idle row.2

instance (s : Watch) (e : Event) : Decidable (s.Calm e) := by
  unfold Calm
  split <;> infer_instance

/-- A call is about to close the session because it has been evicted or is stale. -/
def Closing (s : Watch) (sid : ℕ) : Prop :=
  ∃ q ∈ s.world.calls.rows,q.2.phase.closesNext s.world.registry s.evicted q.1 = some sid

instance (s : Watch) (sid : ℕ) : Decidable (s.Closing sid) := by
  unfold Closing
  infer_instance

def Settled (s : Watch) : Prop := ∀ sid ∈ s.chosen,s.Idle sid

theorem Settled.closing {s : Watch} (h : s.Settled) {sid : ℕ} (hclosing : s.Closing sid) :
    s.Idle sid := by
  apply h
  obtain ⟨⟨i,run⟩,hmem,hsid⟩ := hclosing
  unfold Phase.closesNext at hsid
  split at hsid
  · split_ifs at hsid with hevicted
    cases hsid
    exact List.mem_append_left _ (List.mem_map.mpr ⟨_,hevicted,rfl⟩)
  · rename_i l key stale hp
    refine List.mem_append_right _ (List.mem_flatMap.mpr ⟨(i,run),hmem,?_⟩)
    rw [show run.phase = _ from hp]
    exact List.mem_filterMap.mpr ⟨key,List.mem_cons_self,hsid⟩
  · cases hsid

end Watch

section Scans
variable {env : Env} {r q : Registry} {c : Call} {l : Locals} {sid : ℕ}

theorem scanFrom_collected {now : ℤ} {rows : List (SessionKey × ℕ)} {stale : List SessionKey}
    (hsid : sid ∈ (scanFrom r l now rows stale).collected q) :
    ∃ key, q.sessions.get? key = some sid ∧
      (key ∈ stale ∨ ∃ j s, (key,j) ∈ rows ∧ r.heap.get? j = some s ∧ s.closed = true) := by
  obtain ⟨-,hkeys⟩ := scanAhead_spec r rows stale
  unfold scanFrom at hsid
  split at hsid
  · rename_i hscan
    rw [hscan] at hkeys
    obtain ⟨key,hkey,hget⟩ := List.mem_filterMap.mp hsid
    exact ⟨key,hget,hkeys key hkey⟩
  · rename_i hscan
    rw [hscan] at hkeys
    obtain ⟨key,hkey,hget⟩ := List.mem_filterMap.mp hsid
    exact ⟨key,hget,hkeys key hkey⟩

theorem promoteAndIndex_closed {j : ℕ} {turnState : String} :
    ((promoteAndIndex env r j turnState).heap.get? sid).map Session.closed =
      (r.heap.get? sid).map Session.closed := by
  have hindex : ∀ (r : Registry), (r.registerAliases j).heap = r.heap := by
    intro r
    unfold registerAliases
    split <;> rfl
  rw [promoteAndIndex,hindex,promoteToCodexAffinity,Registry.modify]
  split
  · rename_i s hs
    apply map_get?_set Session.closed hs
    rfl
  · rfl

theorem resolveAlias_closed {key : SessionKey} (h : resolveAlias env c key r = .proceed q l)
    (sid : ℕ) : (q.heap.get? sid).map Session.closed = (r.heap.get? sid).map Session.closed := by
  have halias := resolveAlias_aliasStep env c key r
  rw [h] at halias
  generalize hout : AliasResult.proceed q l = out at halias
  cases halias with
  | keeps | forgets =>
    cases hout
    rfl
  | follows =>
    cases hout
    exact promoteAndIndex_closed
  | previous => cases hout
  | without _ _ _ _ hq =>
    cases hout
    rcases hq with rfl | ⟨a,rfl⟩ <;> rfl

end Scans

section Steps
variable {env : Env} {w t : World} {i : ℕ} {run : Running} {e : Event} {p q : Phase}

/-- The call has not returned, and has collected nothing. -/
structure Phase.Plain (p : Phase) : Prop where
  gives : p.gives = none
  collected : ∀ r, p.collected r = []

theorem continuityOrCapacity_plain (c : Call) (l : Locals) (r : Registry) :
    (continuityOrCapacity c l r).Plain := by
  rcases continuityOrCapacity_cases c l r with h | ⟨error,h⟩ <;> rw [h] <;> exact ⟨rfl,fun _ => rfl⟩

theorem lookupPrevious_plain (env : Env) (c : Call) (now : ℤ) (l : Locals)
    (slots : Dict SessionKey ℕ) (r : Registry) : (lookupPrevious env c now l slots r).2.Plain := by
  obtain ⟨l',-,⟨sid,h⟩ | h | h⟩ := lookupPrevious_cases env c now l slots r <;> rw [h] <;>
    exact ⟨rfl,fun _ => rfl⟩

theorem selectExisting_plain (env : Env) (c : Call) (now : ℤ) (l : Locals) (r : Registry) :
    (selectExisting env c now l r).2.Plain := by
  unfold selectExisting
  split
  · exact ⟨rfl,fun _ => rfl⟩
  · split_ifs <;> exact ⟨rfl,fun _ => rfl⟩

theorem cancelTo_plain (hcancel : cancelTo p = some q) : q.Plain := by
  cases p with
  | closing l todo stage =>
    cases todo <;> cases hcancel
    exact ⟨rfl,fun _ => rfl⟩
  | _ => cases hcancel <;> exact ⟨rfl,fun _ => rfl⟩

variable {r : Registry}

theorem scanFrom_gives {l : Locals} {now : ℤ} {rows : List (SessionKey × ℕ)}
    {stale : List SessionKey} : (scanFrom r l now rows stale).gives = none := by
  rcases scanFrom_cases r l now rows stale with ⟨row,rest,keys,hscan⟩ | ⟨keys,hscan⟩
  · rw [hscan]
    rfl
  · rw [hscan]
    rfl

variable {sid : ℕ}

theorem closeStep_gives {stage : CloseStage} (hclose : closeStep i p = some (sid,stage,q)) :
    q.gives = none ∧ ∀ r, q.collected r = p.collected r := by
  unfold closeStep at hclose
  split at hclose
  · cases hclose
    exact ⟨rfl,fun _ => rfl⟩
  · cases hclose
    split <;> exact ⟨rfl,fun _ => rfl⟩
  · cases hclose
    split <;> exact ⟨rfl,fun _ => rfl⟩
  · cases hclose
    split <;> exact ⟨rfl,fun _ => rfl⟩
  · cases hclose

theorem dispatch_gives (r : Registry) (l : Locals) :
    (dispatch r l).gives = l.sessionToReturnAfterClose ∧ ∀ r', (dispatch r l).collected r' = [] := by
  obtain ⟨_,_,hret,h⟩ | ⟨hret,⟨_,h⟩ | ⟨_,h⟩ | ⟨_,h⟩ | ⟨_,h⟩ | h⟩ := dispatch_cases r l <;>
    rw [h,hret] <;> exact ⟨rfl,fun _ => rfl⟩

theorem CallStep.gives (h : CallStep env w i run e p q t) (hrun : w.calls.get? i = some run)
    (hp : run.phase = p) (hsid : q.gives = some sid) : w.handsOut e = some sid := by
  obtain ⟨c,phase⟩ := run
  subst hp
  cases h with
  | acquired | scan =>
    rw [scanFrom_gives] at hsid
    cases hsid
  | select =>
    rw [(selectExisting_plain _ _ _ _ _).gives] at hsid
    cases hsid
  | owner =>
    rw [findInflight,(lookupPrevious_plain _ _ _ _ _ _).gives] at hsid
    cases hsid
  | refreshed =>
    rw [(continuityOrCapacity_plain _ _ _).gives] at hsid
    cases hsid
  | close hclose =>
    rw [(closeStep_gives hclose).1] at hsid
    cases hsid
  | cancel hcancel =>
    rw [(cancelTo_plain hcancel).gives] at hsid
    cases hsid
  | proceed =>
    rw [(dispatch_gives _ _).1] at hsid
    simp only [World.handsOut,hrun]
    exact hsid
  | reused =>
    cases hsid
    simp only [World.handsOut,hrun]
  | joins hfuture =>
    cases hsid
    simp only [World.handsOut,hrun,hfuture]
  | registered | registeredLate =>
    cases hsid
    rfl
  | _ => cases hsid

theorem collected_congr {r' : Registry} (h : r'.sessions = r.sessions) (p : Phase) :
    p.collected r' = p.collected r := by
  cases p <;> simp [Phase.collected,h]

theorem collected_unlocked (r : Registry) (h : p.locked = false) : p.collected r = [] := by
  cases p <;> first | rfl | cases h

end Steps

end CodexLb.Bridge
