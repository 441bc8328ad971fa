import CodexLb.TokenRefresh

/-!
# What concurrent refreshes can and cannot do to the stored tokens

The two conditions under which the stored refresh token only moves forward are
conditions on single steps: the endpoint grants a refresh while no other grant
is waiting for its commit, and a write-back commits while the row still holds
the refresh token it carries. Under single use of tokens, and if a rejected call
re-reads the row from the database after the winner's commit, no call
deactivates the account either.
-/
namespace CodexLb.TokenRefresh
open Runs

def Event.onObject : Event → Bool
  | .ensureFresh .. | .ensureChatgptAccountId _ | .syncPlanType .. => true
  | _ => false

/-- The steps, one constructor for each branch of `step`. -/
inductive Transition (env : Env) (w : World) : Event → World → Prop
  | load (p : ℕ) : Transition env w (.load p) {w with objects := w.objects++[⟨p,w.row⟩]}
  | run {i : ℕ} {attached force : Bool} {now clock : ℤ} {o : AccountObject}
      (ho : w.objects[i]? = some o) : Transition env w (.ensureFresh i attached force now clock)
        (w.singleflightRun o i attached clock)
  | idle {e : Event} (he : e.onObject = true) : Transition env w e w
  | send {i token : ℕ} {t : Task} {o : AccountObject} (ht : w.tasks[i]? = some t)
      (ho : w.objects[t.object]? = some o) (hp : t.phase = .created)
      (hk : o.account.refreshToken = some token) :
      Transition env w (.start i) (w.setPhase i t (.sent token))
  | skip {i : ℕ} {t : Task} (ht : w.tasks[i]? = some t) (hp : t.phase = .created) :
      Transition env w (.start i) (w.setPhase i t (.returned t.object))
  | grant {i token : ℕ} {a d : String} {c p m : Option String} {t : Task}
      (ht : w.tasks[i]? = some t) (hp : t.phase = .sent token) :
      Transition env w (.grant i a d c p m)
        {w.setPhase i t (.answered token ⟨a,w.issued,d,c,p,m⟩) with
          issued := w.issued+1
          redeemedBy := w.redeemedBy.set token i}
  | reject {i token : ℕ} {e : RefreshError} {t : Task} (ht : w.tasks[i]? = some t)
      (hp : t.phase = .sent token) :
      Transition env w (.reject i e) (w.setPhase i t (.rejected token e))
  | fail {i token : ℕ} {e : RefreshError} {t : Task} (ht : w.tasks[i]? = some t)
      (hp : t.phase = .sent token) : Transition env w (.fail i e) (w.setPhase i t (.raised e))
  | resume {i token : ℕ} {now : ℤ} {r : TokenRefreshResult} {t : Task} {o : AccountObject}
      (ht : w.tasks[i]? = some t) (ho : w.objects[t.object]? = some o)
      (hp : t.phase = .answered token r) :
      Transition env w (.resume i now) ((w.setAccount t.object o
        (o.account.applyRefresh env r now)).setPhase i t
          (.writing token (o.account.applyRefresh env r now).tokenUpdate))
  | commit {i token : ℕ} {u : TokenUpdate} {t : Task} (ht : w.tasks[i]? = some t)
      (hp : t.phase = .writing token u) : Transition env w (.commit i)
        {w.setPhase i t (.returned t.object) with row := w.row.updateTokens u}
  | found {i token : ℕ} {e : RefreshError} {t : Task} {o : AccountObject}
      (ht : w.tasks[i]? = some t) (ho : w.objects[t.object]? = some o)
      (hp : t.phase = .rejected token e) (ha : t.attached = false) :
      Transition env w (.reread i) {w.setPhase i t (.returned w.objects.length) with
        objects := w.objects++[⟨t.process,w.row⟩]}
  | condemn {i token : ℕ} {e : RefreshError} {t : Task} {o : AccountObject}
      (ht : w.tasks[i]? = some t) (ho : w.objects[t.object]? = some o)
      (hp : t.phase = .rejected token e)
      (hsame : t.attached = true ∨ w.row.refreshToken = o.account.refreshToken) :
      Transition env w (.reread i) (w.setPhase i t (.condemned token e))
  | deactivate {i token : ℕ} {e : RefreshError} {t : Task} {o : AccountObject} {a : Account}
      (ht : w.tasks[i]? = some t) (ho : w.objects[t.object]? = some o)
      (hp : t.phase = .condemned token e) (ha : a.refreshToken = o.account.refreshToken) :
      Transition env w (.deactivate i) {(w.setAccount t.object o a).setPhase i t (.raised e) with
        row := w.row.updateStatus .deactivated (some e.reason)}
  | complete {i : ℕ} {clock : ℤ} {t : Task} (ht : w.tasks[i]? = some t)
      (hd : t.phase.done = true) : Transition env w (.complete i clock) (w.completeTask env i t clock)
  | writeBack {e : Event} {i : ℕ} {o : AccountObject} {a : Account} (he : e.onObject = true)
      (ho : w.objects[i]? = some o) (ha : a.refreshToken = o.account.refreshToken) :
      Transition env w e {w.setAccount i o a with writes := w.writes++[some a.tokenUpdate]}
  | commitWrite {i : ℕ} {u : TokenUpdate} (hu : w.writes[i]? = some (some u)) :
      Transition env w (.commitWrite i)
        {w with row := w.row.updateTokens u,writes := w.writes.set i none}

variable {w v : World} {env : Env} {e : Event}

theorem transition_of_step (h : step env w e = some v) : Transition env w e v := by
  cases e with
  | load p =>
    simp only [step,Option.some.injEq] at h
    subst h
    exact .load p
  | ensureFresh i attached force now clock =>
    obtain ⟨o,ho,h⟩ := Option.bind_eq_some_iff.mp h
    split_ifs at h <;> cases h
    · exact .run ho
    · exact .idle rfl
  | start i =>
    obtain ⟨t,ht,h⟩ := Option.bind_eq_some_iff.mp h
    obtain ⟨o,ho,h⟩ := Option.bind_eq_some_iff.mp h
    split at h
    · rename_i hp hk
      cases h
      exact .send ht ho hp hk
    · rename_i hp hk
      cases h
      exact .skip ht hp
    · cases h
  | grant i a d c p m =>
    obtain ⟨t,ht,h⟩ := Option.bind_eq_some_iff.mp h
    split at h
    · cases h
      exact .grant ht ‹_›
    · cases h
  | reject i e =>
    obtain ⟨t,ht,h⟩ := Option.bind_eq_some_iff.mp h
    split at h
    · split_ifs at h
      cases h
      exact .reject ht ‹_›
    · cases h
  | fail i e =>
    obtain ⟨t,ht,h⟩ := Option.bind_eq_some_iff.mp h
    split at h
    · split_ifs at h
      cases h
      exact .fail ht ‹_›
    · cases h
  | resume i now =>
    obtain ⟨t,ht,h⟩ := Option.bind_eq_some_iff.mp h
    obtain ⟨o,ho,h⟩ := Option.bind_eq_some_iff.mp h
    split at h
    · cases h
      exact .resume ht ho ‹_›
    · cases h
  | commit i =>
    obtain ⟨t,ht,h⟩ := Option.bind_eq_some_iff.mp h
    split at h
    · cases h
      exact .commit ht ‹_›
    · cases h
  | reread i =>
    obtain ⟨t,ht,h⟩ := Option.bind_eq_some_iff.mp h
    obtain ⟨o,ho,h⟩ := Option.bind_eq_some_iff.mp h
    split at h
    · cases ha : t.attached with
      | true =>
        simp only [ha,if_true,ne_eq,not_true,if_false] at h
        cases h
        exact .condemn ht ho ‹_› (Or.inl ha)
      | false =>
        simp only [ha,Bool.false_eq_true,if_false] at h
        split_ifs at h with hne
        · cases h
          exact .found ht ho ‹_› ha
        · cases h
          exact .condemn ht ho ‹_› (Or.inr (not_not.mp hne))
    · cases h
  | deactivate i =>
    obtain ⟨t,ht,h⟩ := Option.bind_eq_some_iff.mp h
    obtain ⟨o,ho,h⟩ := Option.bind_eq_some_iff.mp h
    split at h
    · cases h
      exact .deactivate ht ho ‹_› rfl
    · cases h
  | complete i clock =>
    obtain ⟨t,ht,h⟩ := Option.bind_eq_some_iff.mp h
    split_ifs at h with hd
    cases h
    simp only [Bool.and_eq_true] at hd
    exact .complete ht hd.1
  | ensureChatgptAccountId i | syncPlanType i planType =>
    obtain ⟨o,ho,h⟩ := Option.bind_eq_some_iff.mp h
    simp only [] at h
    split_ifs at h <;> cases h
    · exact .idle rfl
    · exact .writeBack rfl ho rfl
  | commitWrite i =>
    simp only [step] at h
    split at h
    · cases h
      exact .commitWrite ‹_›
    · cases h

/-- The token that was redeemed and the one that came back, while the latter
is not committed. -/
def Phase.grant? : Phase → Option (ℕ × Option ℕ)
  | .answered token r => some (token,some r.refreshToken)
  | .writing token u => some (token,u.refreshToken)
  | _ => none

/-- At most one refresh is between its grant and its commit. -/
def serialGrants (w : World) : Event → Bool
  | .grant .. => w.tasks.all fun t => t.phase.grant?.isNone
  | _ => true

def currentWriteBacks (w : World) : Event → Bool
  | .commitWrite i =>
    match w.writes[i]? with
    | some (some u) => u.refreshToken = w.row.refreshToken
    | _ => true
  | _ => true

def Ordered (w : World) (e : Event) : Prop :=
  serialGrants w e = true ∧ currentWriteBacks w e = true

instance (w : World) (e : Event) : Decidable (Ordered w e) := inferInstanceAs (Decidable (_ ∧ _))

structure TokenOrder (w : World) : Prop where
  row : ∀ n, w.row.refreshToken = some n → n < w.issued
  newest : ∀ t ∈ w.tasks, ∀ token m, t.phase.grant? = some (token,m) →
    ∃ k, m = some k ∧ k+1 = w.issued

def Forward (w v : World) : Prop := ∀ n, w.row.refreshToken = some n →
  ∃ m, v.row.refreshToken = some m ∧ n ≤ m

theorem Forward.refl (w : World) : Forward w w := fun n h => ⟨n,h,le_rfl⟩

theorem Forward.trans {u : World} (h : Forward u v) (k : Forward v w) : Forward u w := by
  intro n hn
  obtain ⟨m,hm,hnm⟩ := h n hn
  obtain ⟨l,hl,hml⟩ := k m hm
  exact ⟨l,hl,hnm.trans hml⟩

theorem Forward.of_row (h : v.row.refreshToken = w.row.refreshToken) :
    Forward w v := fun n hn => ⟨n,h.trans hn,le_rfl⟩

section
variable {w v : World} {i : ℕ} {t : Task} {p : Phase}

@[simp] theorem setPhase_issued : (w.setPhase i t p).issued = w.issued := rfl

theorem mem_setPhase {q : Task} (h : q ∈ (w.setPhase i t p).tasks) :
    q ∈ w.tasks ∨ q = {t with phase := p} := List.mem_or_eq_of_mem_set h

theorem TokenOrder.of_same (h : TokenOrder w) (hrow : v.row.refreshToken = w.row.refreshToken)
    (hissued : v.issued = w.issued)
    (htasks : ∀ t ∈ v.tasks, t ∈ w.tasks ∨ t.phase.grant? = none) :
    TokenOrder v ∧ Forward w v := by
  refine ⟨⟨?_,?_⟩,Forward.of_row hrow⟩
  · rw [hrow,hissued]
    exact h.row
  · intro t ht token m hg
    rw [hissued]
    rcases htasks t ht with ht | hnone
    · exact h.newest t ht token m hg
    · rw [hnone] at hg
      exact absurd hg (by simp)

theorem TokenOrder.setPhase (h : TokenOrder w) (hp : p.grant? = none) :
    TokenOrder (w.setPhase i t p) ∧ Forward w (w.setPhase i t p) := by
  refine h.of_same rfl rfl ?_
  intro q hq
  rcases mem_setPhase hq with hq | rfl
  · exact Or.inl hq
  · exact Or.inr hp

end

/-- The single flight changes tasks and its own dictionaries only. -/
structure SameStore (w v : World) : Prop where
  row : v.row = w.row
  issued : v.issued = w.issued
  redeemedBy : v.redeemedBy = w.redeemedBy
  objects : v.objects = w.objects

/-- Entries of tasks that are still running survive. -/
def KeepsLive (w v : World) : Prop :=
  ∀ k j, w.inflight.get? k = some j → w.isDone j = false → v.inflight.get? k = some j

/-- A call that does not fail from the cache joins a task, or adds one under a
key that no running task has. -/
def JoinedOrCreated (w v : World) (o : AccountObject) (i : ℕ) (attached : Bool) : Prop :=
  (v.tasks = w.tasks ∧ KeepsLive w v) ∨
  (v.tasks = w.tasks++[⟨o.process,i,o.account.refreshToken,attached,.created,false⟩] ∧
    v.inflight.get? (o.process,o.account.refreshToken) = some w.tasks.length ∧
    ∀ k j, w.inflight.get? k = some j → w.isDone j = false →
      k ≠ (o.process,o.account.refreshToken) ∧ v.inflight.get? k = some j)

section Singleflight
variable {w u : World} {o : AccountObject} {i : ℕ} {attached : Bool}

theorem createTask_spec (htasks : u.tasks = w.tasks) (hlive : KeepsLive w u)
    (hfree : ∀ j, u.inflight.get? (o.process,o.account.refreshToken) = some j → u.isDone j = true) :
    JoinedOrCreated w (u.createTask o i attached) o i attached := by
  right
  refine ⟨by rw [World.createTask,htasks],by simp [World.createTask,Dict.get?_set,htasks],?_⟩
  intro k j hk hj
  have hu := hlive k j hk hj
  have hne : k ≠ (o.process,o.account.refreshToken) := by
    rintro rfl
    have hdone : w.isDone j = true := by
      have h := hfree j hu
      rwa [World.isDone,htasks] at h
    simp [hj] at hdone
  exact ⟨hne,by rw [World.createTask,Dict.get?_set,if_neg hne,hu]⟩

theorem joinOrCreate_spec (htasks : u.tasks = w.tasks) (hlive : KeepsLive w u) :
    JoinedOrCreated w (u.joinOrCreate o i attached) o i attached := by
  unfold World.joinOrCreate
  cases hk : u.inflight.get? (o.process,o.account.refreshToken) with
  | none => exact createTask_spec htasks hlive (by simp [hk])
  | some t =>
    simp only []
    split_ifs with hret hdone
    · exact Or.inl ⟨htasks,hlive⟩
    · refine createTask_spec htasks hlive ?_
      intro j hj
      rw [hk,Option.some.injEq] at hj
      rw [← hj,hdone]
    · exact Or.inl ⟨htasks,hlive⟩

theorem joinOrCreate_sameStore (h : SameStore w u) : SameStore w (u.joinOrCreate o i attached) := by
  unfold World.joinOrCreate World.createTask
  split
  · exact ⟨h.row,h.issued,h.redeemedBy,h.objects⟩
  · split_ifs <;> exact ⟨h.row,h.issued,h.redeemedBy,h.objects⟩

theorem purgeStaleVersions_keepsLive (w : World) (key : ℕ × Option ℕ) :
    KeepsLive w (w.purgeStaleVersions key) := by
  intro k j hk hj
  exact Dict.get?_filter.mpr ⟨hk,by simp [hj]⟩

theorem singleflightRun_spec (w : World) (o : AccountObject) (i : ℕ) (attached : Bool) (clock : ℤ) :
    SameStore w (w.singleflightRun o i attached clock) ∧
      JoinedOrCreated w (w.singleflightRun o i attached clock) o i attached := by
  have hlive := purgeStaleVersions_keepsLive w (o.process,o.account.refreshToken)
  have hsame : SameStore w (w.purgeStaleVersions (o.process,o.account.refreshToken)) :=
    ⟨rfl,rfl,rfl,rfl⟩
  unfold World.singleflightRun
  simp only []
  split
  · exact ⟨joinOrCreate_sameStore hsame,joinOrCreate_spec rfl hlive⟩
  · split_ifs
    · exact ⟨hsame,Or.inl ⟨rfl,hlive⟩⟩
    · exact ⟨joinOrCreate_sameStore ⟨rfl,rfl,rfl,rfl⟩,joinOrCreate_spec rfl hlive⟩

end Singleflight

theorem JoinedOrCreated.no_grant {o : AccountObject} {i : ℕ} {attached : Bool}
    (h : JoinedOrCreated w v o i attached) :
    ∀ t ∈ v.tasks, t ∈ w.tasks ∨ t.phase.grant? = none := by
  intro t ht
  rcases h with ⟨htasks,_⟩ | ⟨htasks,_⟩
  · exact Or.inl (htasks ▸ ht)
  · rw [htasks] at ht
    rcases List.mem_append.mp ht with ht | ht
    · exact Or.inl ht
    · exact Or.inr (by rw [List.mem_singleton.mp ht]; rfl)

theorem tokenOrder_step (h : TokenOrder w) (hG : Ordered w e) (hstep : Transition env w e v) :
    TokenOrder v ∧ Forward w v := by
  cases hstep with
  | load p | writeBack _ _ _ => exact h.of_same rfl rfl fun t ht => Or.inl ht
  | run ho =>
    obtain ⟨hsame,hjoin⟩ := singleflightRun_spec w _ _ _ _
    exact h.of_same (by rw [hsame.row]) hsame.issued hjoin.no_grant
  | idle => exact ⟨h,Forward.refl w⟩
  | send _ _ _ _ | skip _ _ | reject _ _ | fail _ _ | condemn _ _ _ _ => exact h.setPhase rfl
  | found _ _ _ _ | deactivate _ _ _ _ =>
    refine h.of_same rfl rfl fun q hq => ?_
    rcases mem_setPhase hq with hq | rfl
    · exact Or.inl hq
    · exact Or.inr rfl
  | complete ht hd =>
    refine h.of_same rfl rfl fun q hq => ?_
    rcases List.mem_or_eq_of_mem_set hq with hq | rfl
    · exact Or.inl hq
    · right
      simp only [Phase.done] at hd
      split at hd <;> simp_all [Phase.grant?]
  | @commitWrite i u hu =>
    have hrow : u.refreshToken = w.row.refreshToken := by
      simpa [currentWriteBacks,hu] using hG.2
    exact h.of_same hrow rfl fun t ht => Or.inl ht
  | grant ht hp =>
    refine ⟨⟨?_,?_⟩,Forward.of_row rfl⟩
    · exact fun n hn => (h.row n hn).trans (Nat.lt_succ_self _)
    · intro q hq token m hg
      rcases mem_setPhase hq with hq | rfl
      · have hnone := List.all_eq_true.mp hG.1 q hq
        rw [hg] at hnone
        exact absurd hnone (by simp)
      · simp only [Phase.grant?,Option.some.injEq,Prod.mk.injEq] at hg
        exact ⟨w.issued,hg.2.symm,rfl⟩
  | resume ht ho hp =>
    refine ⟨⟨h.row,?_⟩,Forward.of_row rfl⟩
    intro q hq token m hg
    rcases mem_setPhase hq with hq | rfl
    · exact h.newest q hq token m hg
    · refine h.newest _ (List.mem_of_getElem? ht) token m ?_
      rw [hp]
      exact hg
  | commit ht hp =>
    obtain ⟨k,hk,hlast⟩ := h.newest _ (List.mem_of_getElem? ht) _ _ (by rw [hp]; rfl)
    refine ⟨⟨?_,?_⟩,?_⟩
    · intro n hn
      have hnk : n = k := by simpa [Account.updateTokens,hk] using hn.symm
      simp only [setPhase_issued]
      omega
    · intro q hq token m hg
      rcases mem_setPhase hq with hq | rfl
      · exact h.newest q hq token m hg
      · exact absurd hg (by simp [Phase.grant?])
    · intro n hn
      have := h.row n hn
      exact ⟨k,by simp [Account.updateTokens,hk],by omega⟩

theorem Initial.tokenOrder (h : Initial w) : TokenOrder w :=
  ⟨h.issued,by simp [h.tasks]⟩

/-- Along every run in which grants are serial and write-backs current, from
any state the run reaches to any later one. -/
theorem committed_token_forward {env : Env} {w u v : World} {es fs : List Event} (hw : Initial w)
    (h : Run (restrict (Steps (step env)) Ordered) w es u)
    (k : Run (restrict (Steps (step env)) Ordered) u fs v) : Forward u v := by
  have hstep : ∀ s e t, TokenOrder s → restrict (Steps (step env)) Ordered s e t →
      TokenOrder t ∧ Forward s t :=
    fun s e t hs hst => tokenOrder_step hs hst.1 (transition_of_step hst.2)
  have hu : TokenOrder u := h.invariant (fun s e t hs hst => (hstep s e t hs hst).1) hw.tokenOrder
  exact k.relates Forward.refl (fun _ _ _ => Forward.trans) hstep hu

def plainEnv : Env where
  strip := id
  lower := id
  chatgptAccountIdFromIdToken := fun _ => none
  tokenRefreshInterval := 8
  refreshFailureCooldown := 5

def importedAccount : Account :=
  ⟨"a0",some 0,"i0",0,"free","e",some "c",.active,none,none⟩

def importedWorld : World :=
  ⟨importedAccount,1,Dict.empty,[],[],[],Dict.empty,Dict.empty⟩

theorem importedWorld_initial : Initial importedWorld :=
  ⟨by decide,rfl,rfl,rfl,rfl⟩

/-- The usage updater loads the account; the proxy loads it too, refreshes and
commits token 1. -/
def refreshAfterLoad : List Event :=
  [.load 0,.load 1,.ensureFresh 1 false true 9 0,.start 0,.grant 0 "a1" "i1" none none none,
    .resume 0 9,.commit 0]

theorem committed_token_forward_refresh : ∃ u,
    Run (restrict (Steps (step plainEnv)) Ordered) importedWorld refreshAfterLoad u ∧
      Forward importedWorld u ∧ u.row.refreshToken = some 1 :=
  exists_run_with (fun _ hrun htoken =>
    ⟨committed_token_forward importedWorld_initial (.done _) hrun,htoken⟩) (by decide)

/-- The updater then writes the plan type back with the tokens it had loaded. -/
theorem stale_plan_sync_regresses : ∃ es fs u v,
    Run (Steps (step plainEnv)) importedWorld es u ∧ Run (Steps (step plainEnv)) u fs v ∧
      u.row.refreshToken = some 1 ∧ v.row.refreshToken = some 0 := by
  obtain ⟨u,hu,htoken,hnext⟩ := exists_steps_of_exec (f := step plainEnv) (s := importedWorld)
    (p := fun u => u.row.refreshToken = some 1 ∧
      (exec (step plainEnv) (fun _ _ => True) u [.syncPlanType 0 (some "pro"),.commitWrite 0]).any
        (fun v => decide (v.row.refreshToken = some 0)) = true)
    (show (exec _ _ _ refreshAfterLoad).any _ = true by decide)
  obtain ⟨v,hv,hback⟩ := exists_steps_of_exec hnext
  exact ⟨_,_,u,v,hu,hv,htoken,hback⟩

end CodexLb.TokenRefresh
