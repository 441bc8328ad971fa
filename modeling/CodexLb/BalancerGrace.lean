import CodexLb.BalancerSticky

/-!
# The grace period and the persisted status

The sticky path of `select_account`. An attempt builds the states, selects with
stickiness, writes the runtime back, copies status and reason of the result into
the state of its account, and persists the states with a compare-and-set on the
rows. An attempt whose selected row was stale is repeated, on whatever the other
tasks have left by then.

The grace period selects a copy of the pinned state as of ten seconds later. The
state itself stays limited, but the copying before the persisting brings the
status of the copy back into it. So a limited account that is selected through
the grace period is persisted as active.
-/
namespace CodexLb.LoadBalancer
open TokenRefresh (AccountStatus)

abbrev AccountRows := Dict String Account

def adopt (result : SelectionResult) (s : AccountState) : AccountState :=
  match result.account with
  | some x =>
    if s.accountId = x.accountId then
      {s with status := x.status,deactivationReason := x.deactivationReason}
    else s
  | none => s

/-- `_persist_state_if_current` on the table; a row that is gone matches
nothing. -/
def persistRow (w : PendingWrite) (rows : AccountRows) : Bool × AccountRows :=
  match rows.get? w.account.id with
  | none => (decide (w.account.SameBlock (w.account.withState w.state)),rows)
  | some row =>
    let p := persistStateIfCurrent row w.account w.state
    (p.1,rows.set w.account.id p.2)

/-- `_persist_selection_state`: the stale accounts and the rows. -/
def persistSelectionState : List PendingWrite → AccountRows → List String × AccountRows
  | [],rows => ([],rows)
  | w::ws,rows =>
    let p := persistRow w rows
    let rest := persistSelectionState ws p.2
    (if p.1 then rest.1 else w.account.id::rest.1,rest.2)

def syncAll (now : ℚ) (writes : List PendingWrite) (runtimes : Runtimes) : Runtimes :=
  writes.foldl (fun runtimes w =>
    runtimes.set w.account.id (w.sync now (runtimeOf runtimes w.account.id))) runtimes

/-- A clone of the account with the status and reason of the result and the
reset time of the state. -/
def selectedSnapshot (pool : List Candidate) (states : List AccountState) (x : AccountState) :
    Option Account :=
  (pool.find? fun d => d.account.id = x.accountId).map fun d =>
    {d.account with
      status := x.status
      deactivationReason := x.deactivationReason
      resetAt := match states.find? fun s => s.accountId = x.accountId with
        | some s => storedTime s.resetAt
        | none => d.account.resetAt}

/-- What an attempt finds: its inputs, the clock, and the shared state. -/
structure Turn where
  pool : List Candidate
  errorMessage : Option String
  errorCode : Option String
  build : ℚ
  clock : StickyClock
  sync : ℚ
  runtimes : Runtimes
  sticky : StickyRows
  rows : AccountRows

structure Attempt where
  snapshot : Option Account
  errorMessage : Option String
  runtimes : Runtimes
  sticky : StickyRows
  rows : AccountRows
  stale : List String

namespace Turn
variable (env : Env) (c : Chance) (q : StickyCall) (turn : Turn)

def states : List AccountState := (buildStates env turn.build turn.pool turn.runtimes).1

def selected : Selected := q.selectWithStickiness c turn.clock (turn.states env) turn.sticky

def writes : List PendingWrite :=
  let r := turn.selected env c q
  List.zipWith (fun d s => ⟨d.account,s,r.result.account.any fun x => x.accountId = s.accountId⟩)
    turn.pool r.states

def attempt : Attempt :=
  let r := turn.selected env c q
  let writes := turn.writes env c q
  let persisted := persistSelectionState
    (writes.map fun w => {w with state := adopt r.result w.state}) turn.rows
  { snapshot := r.result.account.bind (selectedSnapshot turn.pool r.states)
    errorMessage := r.result.errorMessage
    runtimes := syncAll turn.sync writes (buildStates env turn.build turn.pool turn.runtimes).2
    sticky := r.sticky
    rows := persisted.2
    stale := persisted.1 }

end Turn

structure AccountSelection where
  account : Option Account
  errorMessage : Option String
  errorCode : Option String
  deriving DecidableEq, Repr

def formatDegradedErrorMessage (reason message : String) : String :=
  message++". Service is operating in degraded mode: "++reason

def Attempt.answer (a : Attempt) : AccountSelection :=
  match a.snapshot with
  | some x => ⟨some x,none,none⟩
  | none => ⟨none,a.errorMessage.map fun m => if m = "No available accounts" then
      formatDegradedErrorMessage "all upstream accounts are unavailable" m else m,none⟩

def maxSelectionAttempts : ℕ := 4

/-- The loop of the sticky path, with the attempts it makes; `turns k` is what
attempt `k` finds. -/
def stickyLoop (env : Env) (c : Chance) (q : StickyCall) (turns : ℕ → Turn) :
    ℕ → ℕ → List (Turn × Attempt) × AccountSelection
  | 0,_ => ([],⟨none,none,none⟩)
  | left+1,k =>
    let turn := turns k
    if turn.errorCode.isSome ∧ turn.pool = [] then ([],⟨none,turn.errorMessage,turn.errorCode⟩)
    else
      let a := turn.attempt env c q
      if a.snapshot.any (fun x => x.id ∈ a.stale) then
        let rest := stickyLoop env c q turns left (k+1)
        ((turn,a)::rest.1,rest.2)
      else ([(turn,a)],a.answer)

variable {env : Env}

theorem stickyLoop_attempt {c : Chance} {q : StickyCall} {turns : ℕ → Turn} {left k : ℕ}
    {turn : Turn} {a : Attempt} (h : (turn,a) ∈ (stickyLoop env c q turns left k).1) :
    a = turn.attempt env c q := by
  induction left generalizing k with
  | zero => cases h
  | succ left ih =>
    rw [stickyLoop] at h
    simp only [] at h
    split_ifs at h
    · cases h
    · rcases List.mem_cons.mp h with h | h
      · cases h
        rfl
      · exact ih h
    · cases List.mem_singleton.mp h
      rfl

variable {T : ℚ → Prop} {s u : AccountState}

theorem Screened.accountId (h : Screened T s u) : u.accountId = s.accountId := by
  induction h with
  | refl => rfl
  | step t _ _ ih => rw [screen_accountId,ih]

variable {states after : List AccountState}

theorem AllScreened.accountIds (h : AllScreened T states after) :
    after.map (·.accountId) = states.map (·.accountId) := by
  induction h with
  | nil => rfl
  | cons hsu _ ih => rw [List.map_cons,List.map_cons,hsu.accountId,ih]

/-- Readings before the end of the limit leave the state alone. -/
theorem Screened.eq_of_ahead {r : ℚ} (h : Screened T s u) (hT : ∀ x, T x → x < r)
    (hs : s.status = .rateLimited) (hr : s.resetAt = some r) : u = s := by
  induction h with
  | refl => rfl
  | step t ht _ ih =>
    have hahead : reached t s.resetAt = false := by simp [reached,hr,hT t ht]
    rw [ih,screen_rateLimited hs hahead]

theorem buildStates_accountId {now : ℚ} {pool : List Candidate} (runtimes : Runtimes) :
    List.Forall₂ (fun (d : Candidate) s => s.accountId = d.account.id) pool
      (buildStates env now pool runtimes).1 := by
  induction pool generalizing runtimes with
  | nil => exact .nil
  | cons d pool ih => exact .cons rfl (ih _)

variable {a : String} {rows : AccountRows}

theorem persistRow_get? {w : PendingWrite} : (persistRow w rows).2.get? a = if a = w.account.id then
      (rows.get? a).map fun row => (persistStateIfCurrent row w.account w.state).2
    else rows.get? a := by
  unfold persistRow
  split
  · rename_i hnone
    split_ifs with ha
    · rw [ha,hnone]
      rfl
    · rfl
  · rename_i row hrow
    rw [Dict.get?_set]
    split_ifs with ha
    · rw [ha,hrow]
      rfl
    · rfl

theorem persistSelectionState_other {writes : List PendingWrite}
    (h : a ∉ writes.map (·.account.id)) :
    (persistSelectionState writes rows).2.get? a = rows.get? a := by
  induction writes generalizing rows with
  | nil => rfl
  | cons w writes ih =>
    simp only [List.map_cons,List.mem_cons,not_or] at h
    rw [persistSelectionState]
    rw [ih h.2,persistRow_get?,if_neg h.1]

theorem persistSelectionState_get? {writes : List PendingWrite}
    (hnodup : (writes.map (·.account.id)).Nodup) {w : PendingWrite} (hw : w ∈ writes)
    (rows : AccountRows) :
    (persistSelectionState writes rows).2.get? w.account.id =
      (rows.get? w.account.id).map fun row => (persistStateIfCurrent row w.account w.state).2 := by
  induction writes generalizing rows with
  | nil => cases hw
  | cons v writes ih =>
    simp only [List.map_cons,List.nodup_cons] at hnodup
    rw [persistSelectionState]
    rcases List.mem_cons.mp hw with rfl | hw
    · rw [persistSelectionState_other hnodup.1,persistRow_get?,if_pos rfl]
    · have hne : w.account.id ≠ v.account.id := by
        intro heq
        exact hnodup.1 (heq ▸ List.mem_map_of_mem hw)
      rw [ih hnodup.2 hw,persistRow_get?,if_neg hne]

variable {row account : Account} {state : AccountState}

theorem persistStateIfCurrent_status (h : row.SameBlock account) :
    (persistStateIfCurrent row account state).2.status = state.status := by
  unfold persistStateIfCurrent
  split_ifs with hsame
  · exact h.1.trans hsame.1
  · rfl

theorem persistStateIfCurrent_stale (h : ¬ row.SameBlock account) :
    (persistStateIfCurrent row account state).2 = row := by
  unfold persistStateIfCurrent
  split_ifs <;> rfl

theorem adopt_status (result : SelectionResult) :
    (∃ x, result.account = some x ∧ s.accountId = x.accountId ∧ (adopt result s).status = x.status) ∨
    ((∀ x, result.account = some x → s.accountId ≠ x.accountId) ∧ adopt result s = s) := by
  unfold adopt
  split
  · rename_i x hx
    split_ifs with hid
    · exact Or.inl ⟨x,hx,hid,rfl⟩
    · refine Or.inr ⟨fun y hy => ?_,rfl⟩
      rw [← Option.some.inj (hx.symm.trans hy)]
      exact hid
  · rename_i hnone
    refine Or.inr ⟨fun x hx => ?_,rfl⟩
    rw [hnone] at hx
    cases hx

namespace Turn
variable {env : Env} {c : Chance} {q : StickyCall} {turn : Turn}

theorem states_nodup (hnodup : (turn.pool.map (·.account.id)).Nodup) :
    ((turn.states env).map (·.accountId)).Nodup := by
  have hids : List.Forall₂ Eq ((turn.states env).map (·.accountId)) (turn.pool.map (·.account.id)) :=
    List.forall₂_map_left_iff.mpr (List.forall₂_map_right_iff.mpr (buildStates_accountId _).flip)
  rw [List.forall₂_eq_eq_eq] at hids
  rw [hids]
  exact hnodup

theorem selected_screened :
    AllScreened (· ∈ turn.clock.screens) (turn.states env) (turn.selected env c q).states :=
  StickyCall.screened_selectWithStickiness (fun _ h => h) turn.sticky

/-- Each account of the pool has one write, with the state that the selection
left of the one built for it. -/
theorem writes_spec (hnodup : (turn.pool.map (·.account.id)).Nodup) :
    ((turn.writes env c q).map (·.account.id)).Nodup ∧
    ∀ d ∈ turn.pool, ∀ s ∈ turn.states env, s.accountId = d.account.id →
      ∃ w ∈ turn.writes env c q, w.account = d.account ∧ w.state ∈ (turn.selected env c q).states ∧
        Screened (· ∈ turn.clock.screens) s w.state := by
  have hscreened := (List.forall₂_and_left _ _).mpr
    ⟨fun u (hu : u ∈ (turn.selected env c q).states) => hu,
      (@selected_screened env c q turn).flip⟩
  have hpair := (List.forall₂_and_left _ _).mpr
    ⟨fun u (hu : u ∈ turn.states env) => hu,hscreened.flip⟩
  obtain ⟨hids,hall⟩ := select_pending (f := fun d s => ⟨d.account,s,
    (turn.selected env c q).result.account.any fun x => x.accountId = s.accountId⟩)
    (fun _ _ => ⟨rfl,rfl⟩)
    (forall₂_comp (buildStates_accountId turn.runtimes) hpair)
  refine ⟨by rw [← hids] at hnodup; exact hnodup,fun d hd s hs hid => ?_⟩
  have hmem : d.account.id ∈ (turn.writes env c q).map (·.account.id) :=
    hids.symm ▸ List.mem_map_of_mem hd
  obtain ⟨w,hw,hwid⟩ := List.mem_map.mp hmem
  obtain ⟨e,he,hacc,v,hv,hvmem,hstate,hvs⟩ := hall w hw
  have hed : e = d := List.inj_on_of_nodup_map hnodup he hd (by rw [← hacc,hwid])
  subst hed
  obtain rfl := List.inj_on_of_nodup_map (states_nodup hnodup) hvmem hs (hv.trans hid.symm)
  exact ⟨w,hw,hacc,hstate,hvs⟩

variable {s : AccountState}

/-- A limited state that the selection has left alone is persisted as limited exactly
if the grace period did not pick it. -/
theorem adopt_limited_iff (hnodup : (turn.pool.map (·.account.id)).Nodup)
    (hs : s ∈ turn.states env) (hlimited : s.status = .rateLimited)
    (hleft : s ∈ (turn.selected env c q).states) :
    (adopt (turn.selected env c q).result s).status = .rateLimited ↔
      ¬ q.GracePicked turn.clock turn.sticky s := by
  have hids := @states_nodup env turn hnodup
  have hafter : ((turn.selected env c q).states.map (·.accountId)).Nodup := by
    rw [selected_screened.accountIds]
    exact hids
  have hcases := StickyCall.selectWithStickiness_cases (q := q) (c := c) (t := turn.clock) hids
    turn.sticky
  have hactive : ∀ x, (turn.selected env c q).result.account = some x → x.status = .active := by
    intro x hx
    rcases hcases with hlive | ⟨p,_,_,hgrace⟩
    · exact (hlive x hx).2
    · obtain rfl := Option.some.inj (hgrace.result.symm.trans hx)
      exact screen_available_status (by simp [hgrace.available])
  rcases adopt_status (s := s) (turn.selected env c q).result with
    ⟨x,hx,hid,hstatus⟩ | ⟨hother,hsame⟩
  · rw [hstatus,hactive x hx]
    refine iff_of_false (by simp) (not_not_intro ?_)
    rcases hcases with hlive | ⟨p,hp,hpicked,hgrace⟩
    · obtain ⟨hxmem,hxactive⟩ := hlive x hx
      obtain rfl := List.inj_on_of_nodup_map hafter hleft hxmem hid
      rw [hxactive] at hlimited
      cases hlimited
    · obtain rfl := Option.some.inj (hgrace.result.symm.trans hx)
      rw [screen_accountId] at hid
      obtain rfl := List.inj_on_of_nodup_map hids hs hp hid
      exact hpicked
  · rw [hsame]
    refine iff_of_true hlimited fun hpicked => ?_
    have hgrace := StickyCall.gracePicked_selected (c := c) hids hs hlimited hpicked
    exact hother _ hgrace.result (screen_accountId _ _).symm

end Turn

/-- The row of an account that an attempt has built as limited, with the limit ahead
at every reading of the clock that the selection screens the states with. A row that
has changed since it was read is left alone. Otherwise it is limited afterwards
exactly if the grace period did not pick the account. -/
theorem limited_row_persists_iff {env : Env} {c : Chance} {q : StickyCall} {turns : ℕ → Turn}
    {turn : Turn} {a : Attempt} (ha : (turn,a) ∈ (stickyLoop env c q turns maxSelectionAttempts 0).1)
    (hnodup : (turn.pool.map (·.account.id)).Nodup) {d : Candidate} (hd : d ∈ turn.pool)
    {s : AccountState} (hs : s ∈ turn.states env) (hid : s.accountId = d.account.id)
    (hlimited : s.status = .rateLimited) {r : ℚ} (hreset : s.resetAt = some r)
    (hahead : ∀ x ∈ turn.clock.screens, x < r) {row : Account}
    (hrow : turn.rows.get? d.account.id = some row) :
    ∃ after, a.rows.get? d.account.id = some after ∧
      (¬ row.SameBlock d.account → after = row) ∧
      (row.SameBlock d.account →
        (after.status = .rateLimited ↔ ¬ q.GracePicked turn.clock turn.sticky s)) := by
  obtain rfl := stickyLoop_attempt ha
  obtain ⟨hids,hwrites⟩ := @Turn.writes_spec env c q turn hnodup
  obtain ⟨w,hw,hacc,hstate,hsw⟩ := hwrites d hd s hs hid
  have hleft := hsw.eq_of_ahead hahead hlimited hreset
  have hpersist := @persistSelectionState_get? ((turn.writes env c q).map fun w =>
    {w with state := adopt (turn.selected env c q).result w.state})
    (by rw [List.map_map]; exact hids) _ (List.mem_map_of_mem hw) turn.rows
  simp only [hacc,hrow,Option.map_some,hleft] at hpersist
  refine ⟨_,hpersist,fun hstale => persistStateIfCurrent_stale hstale,fun hcurrent => ?_⟩
  rw [persistStateIfCurrent_status hcurrent]
  exact Turn.adopt_limited_iff hnodup hs hlimited (hleft ▸ hstate)

/-- An account that is limited until `reset`. -/
def limitedAccount (reset : ℤ) : Account := ⟨"a",.rateLimited,none,some reset,some 900,"plus"⟩

def limitedState (reset : ℤ) : AccountState :=
  ⟨"a",.rateLimited,none,some reset,some 900,none,none,none,none,none,0,none,some "plus",some 7560,
    .healthy⟩

def sessionCall : StickyCall := ⟨"k",.codexSession,false,none,95,false,.usageWeighted⟩

/-- An attempt at 1000 with a session that is mapped to the account. -/
def limitedTurn (reset : ℤ) : Turn :=
  ⟨[⟨limitedAccount reset,none,none⟩],none,none,1000,
    ⟨1000,1000,1000,1000,1000,1000,1000,1000,1000,1000⟩,1000,Dict.empty,
    Dict.empty.set ("k",.codexSession) ("a",990),Dict.empty.set "a" (limitedAccount reset)⟩

theorem limitedTurn_attempts {reset : ℤ}
    (h : ¬ ((limitedTurn reset).attempt sampleEnv sampleChance sessionCall).snapshot.any
      fun x => x.id ∈ ((limitedTurn reset).attempt sampleEnv sampleChance sessionCall).stale) :
    (stickyLoop sampleEnv sampleChance sessionCall (fun _ => limitedTurn reset)
      maxSelectionAttempts 0).1 =
      [(limitedTurn reset,(limitedTurn reset).attempt sampleEnv sampleChance sessionCall)] := by
  rw [maxSelectionAttempts,stickyLoop]
  rw [if_neg (by simp [limitedTurn]),if_neg h]

/-- The limit ends twenty seconds later, after the grace period, and the row of the
mapped account stays limited. -/
theorem mapped_row_stays_limited :
    ∃ after, ((limitedTurn 1020).attempt sampleEnv sampleChance sessionCall).rows.get? "a" =
      some after ∧ after.status = .rateLimited := by
  obtain ⟨after,hafter,_,hiff⟩ := @limited_row_persists_iff sampleEnv sampleChance sessionCall
    (fun _ => limitedTurn 1020) (limitedTurn 1020)
    ((limitedTurn 1020).attempt sampleEnv sampleChance sessionCall)
    (by rw [limitedTurn_attempts (by decide +kernel)]; exact List.mem_singleton_self _) (by decide)
    ⟨limitedAccount 1020,none,none⟩ (by simp [limitedTurn]) (limitedState 1020) (by decide +kernel)
    rfl rfl 1020 rfl (by decide +kernel) (limitedAccount 1020) rfl
  exact ⟨after,hafter,(hiff (by decide)).mpr (by decide +kernel)⟩

/-- The limit ends five seconds later. The grace period selects the account, and its
row is persisted as active with the limit still ahead. -/
theorem grace_period_persisted : let turn := limitedTurn 1005
    limitedState 1005 ∈ turn.states sampleEnv ∧ turn.build < 1005 ∧ ∃ a,
      (stickyLoop sampleEnv sampleChance sessionCall (fun _ => turn) maxSelectionAttempts 0).1 =
        [(turn,a)] ∧
      a.rows.get? "a" = some {limitedAccount 1005 with status := .active} := by
  intro turn
  exact ⟨by decide +kernel,by decide +kernel,turn.attempt sampleEnv sampleChance sessionCall,
    limitedTurn_attempts (by decide +kernel),by decide +kernel⟩

end CodexLb.LoadBalancer
