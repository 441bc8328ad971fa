import CodexLb.BridgeScope

/-!
# Isolation of the sessions of different API keys

In every run the session a call returns carries the API key of the call. In
every run whose steps meet `ScopeSafe` its account is one the API key allows.
-/
namespace CodexLb.Bridge
open Runs Registry

namespace InScope
variable {T : AccountTest} {env : Env} {w t : World} {i : ℕ} {run : Running} {p : Phase} {l : Locals}

variable {accountOf : ℕ → Option Account} {c : Call}

theorem scanFrom_allowed {r : Registry} {now : ℤ} {rows : List (SessionKey × ℕ)}
    {stale : List SessionKey} : (scanFrom r l now rows stale).Allowed T accountOf c i := by
  rcases scanFrom_cases r l now rows stale with ⟨row,rest,keys,hscan⟩ | ⟨keys,hscan⟩
  · rw [hscan]
    exact ⟨nofun,nofun⟩
  · rw [hscan]
    exact ⟨nofun,nofun⟩

variable {q : Phase} {sid : ℕ} {stage : CloseStage}

theorem closeStep_allowed (hclose : closeStep i p = some (sid,stage,q))
    (hp : p.Allowed T accountOf c i) : q.Allowed T accountOf c i := by
  unfold closeStep at hclose
  split at hclose
  · cases hclose
    exact ⟨nofun,nofun⟩
  · cases hclose
    split <;> exact ⟨hp.chosen,nofun⟩
  · cases hclose
    split <;> exact ⟨nofun,nofun⟩
  · cases hclose
    split <;> exact ⟨nofun,nofun⟩
  · cases hclose

theorem dispatch_allowed (h : InScope T w) (hw : Coherent w) (hrun : w.calls.get? i = some run)
    {todo : List ℕ} (hp : run.phase = .closing l todo stage) :
    (dispatch w.registry l).Allowed T w.registry.accountOf run.call i := by
  have hknows := hw.knows i run hrun
  rw [hp] at hknows
  cases hret : l.sessionToReturnAfterClose with
  | some sid =>
    simp only [dispatch,hret]
    exact allowed_returned (h.allows_chosen hrun (by rw [hp]; exact hret) (hknows.returns sid hret))
  | none =>
    simp only [dispatch,hret]
    split
    · contradiction
    · exact ⟨by rintro _ _ ⟨⟩,by simp⟩
    · exact ⟨by rintro _ _ ⟨⟩,by simp⟩
    · split
      · exact ⟨by rintro _ _ ⟨⟩,by simp⟩
      · split_ifs <;> exact ⟨by rintro _ _ ⟨⟩,by simp⟩
      · exact ⟨by rintro _ _ ⟨⟩,by simp⟩

theorem cancelTo_allowed (hcancel : cancelTo p = some q) : q.Allowed T accountOf c i := by
  cases p with
  | closing l todo stage =>
    cases todo <;> cases hcancel
    exact ⟨nofun,nofun⟩
  | _ => cases hcancel <;> exact ⟨nofun,nofun⟩

variable {e : Event}

/-- What the call that moves has chosen among the sessions there were. -/
theorem own (h : InScope T w) (hw : Coherent w) (hrun : w.calls.get? i = some run)
    (hsafe : T.Kept env w e) (hs : CallStep env w i run e run.phase q t) :
    q.Allowed T w.registry.accountOf run.call i := by
  obtain ⟨c,p⟩ := run
  have hknows := hw.knows i _ hrun
  have hallowed := h i _ hrun
  cases hs with
  | acquired | scan => exact scanFrom_allowed
  | select => exact selectExisting_allowed _
  | reused =>
    obtain ⟨k,hk,-⟩ := hknows
    exact allowed_returned (h.allows_chosen hrun rfl hk)
  | owner => exact findInflight_allowed w.inflight hknows.2 (hsafe _ hrun)
  | refreshed => exact continuityOrCapacity_allowed hallowed.chosen
  | weighs | weigh | inserts | evicts | claimed => exact ⟨hallowed.chosen,by simp⟩
  | noRoomWaits hnone =>
    rcases hnone with ⟨-,rfl,-⟩ | ⟨-,_,_,rfl,-⟩
    all_goals exact ⟨hallowed.chosen,by simp⟩
  | close hclose => exact closeStep_allowed hclose hallowed
  | proceed => exact h.dispatch_allowed hw hrun rfl
  | joins _ _ hreuse =>
    exact allowed_returned (T.reused hreuse)
  | created =>
    refine ⟨?_,by simp⟩
    rintro _ a ⟨rfl⟩ ha
    rw [Registry.accountOf,Option.map_eq_none_iff.mp (hw.no_session hrun rfl)] at ha
    cases ha
  | registered | registeredLate => exact allowed_returned (h.allows_chosen hrun rfl hknows.2)
  | cancel hcancel => exact cancelTo_allowed hcancel
  | _ => exact ⟨by rintro _ _ ⟨⟩,by simp⟩

/-- A new session is on an account in the scope of the call, and no other call
has chosen it. -/
theorem callStep (h : InScope T w) (hw : Coherent w) (hrun : w.calls.get? i = some run)
    (hsafe : T.Kept env w e) (hs : CallStep env w i run e run.phase q t) : InScope T t := by
  have hown := h.own hw hrun hsafe hs
  rcases hs.registry hw hrun rfl with hsound | ⟨l,account,now,hp,rfl,hselect,hr⟩ | ⟨l,-,-,-,-,hr⟩
  · exact h.move hs.calls hsound.accountOf hown
  · have haccounts : ∀ sid, t.registry.accountOf sid =
        if sid = i then some account else w.registry.accountOf sid := by
      intro sid
      simp only [hr,Registry.accountOf,Dict.get?_set]
      split_ifs <;> rfl
    intro j q hq
    rw [hs.calls,Dict.get?_set] at hq
    split_ifs at hq with hj
    · cases hq
      subst hj
      refine ⟨?_,by simp⟩
      rintro _ a ⟨rfl⟩ ha
      rw [haccounts,if_pos rfl] at ha
      cases ha
      exact T.created hselect
    · have hold := h j q hq
      refine ⟨?_,hold.returned⟩
      intro sid a hsid ha
      rw [haccounts] at ha
      split_ifs at ha with hi
      · obtain ⟨k,hk⟩ := (hw.knows j q hq).chosen hsid
        rw [hi,hw.no_session hrun (by rw [hp]; rfl)] at hk
        cases hk
      · exact hold.chosen sid a hsid ha
  · exact h.move hs.calls (fun _ => by rw [hr]; rfl) hown

/-- The other operations move no session, but the tasks of a session do. -/
theorem ambient (h : InScope T w) (hcalls : t.calls = w.calls)
    (haccounts : ∀ sid, t.registry.accountOf sid = w.registry.accountOf sid) : InScope T t := by
  have heq : t.registry.accountOf = w.registry.accountOf := funext haccounts
  intro i run hrun
  rw [hcalls] at hrun
  rw [heq]
  exact h i run hrun

theorem session_inScope (h : InScope T w) {u : SessionUpdate}
    (hsafe : T.Kept env w (.session sid u)) :
    InScope T {w with registry := w.registry.modify sid (·.apply u)} := by
  intro i run hrun
  have hold := h i run hrun
  refine ⟨?_,hold.returned⟩
  intro j account hj haccount
  unfold Registry.modify at haccount
  split at haccount
  · rename_i s hs
    simp only [Registry.accountOf,Dict.get?_set] at haccount
    split_ifs at haccount with hsid
    · cases haccount
      exact hsafe (i,run) (Dict.get?_eq_some.mp hrun) (hsid ▸ hj)
    · exact hold.chosen j account hj haccount
  · exact hold.chosen j account hj haccount

theorem ambientStep (h : InScope T w) (hsafe : T.Kept env w e) (hs : AmbientStep env w e t) :
    InScope T t := by
  cases hs with
  | session => exact h.session_inScope hsafe
  | registerTurnState => exact h.ambient rfl (sound_registerTurnState _ _ _).accountOf
  | registerPreviousResponseId =>
    exact h.ambient rfl (sound_registerPreviousResponseId _ _ _).accountOf
  | closeSession => exact h.ambient rfl (sound_closeStage _ _ _).accountOf
  | reset => exact h.ambient rfl (sound_popIfSame _ _ _).accountOf
  | closeAll => exact h.ambient rfl fun _ => rfl

end InScope

variable {T : AccountTest} {env : Env} {t : World}

theorem step_inScope {w : World} {e : Event} (h : InScope T w) (hw : Coherent w)
    (hsafe : T.Kept env w e) (ht : step env w e = some t) : InScope T t := by
  rcases step_moves ht with ⟨i,c,-,hnew,rfl⟩ | ⟨i,run,q,hrun,hstep⟩ | hstep
  · intro j q hq
    simp only [Dict.get?_set] at hq
    split_ifs at hq
    · cases hq
      exact ⟨by rintro _ _ ⟨⟩,by simp⟩
    · exact h j q hq
  · exact h.callStep hw hrun hsafe hstep
  · exact h.ambientStep hsafe hstep

theorem returned_session_key {as : List Event} (h : Run (Steps (step env)) World.empty as t)
    {i sid : ℕ} {run : Running} {accountId : String} (hrun : t.calls.get? i = some run)
    (hp : run.phase = .returned sid accountId) :
    ∃ s, t.registry.heap.get? sid = some s ∧ s.key.apiKeyId = run.call.apiKeyId := by
  have hcoherent : Coherent t :=
    h.invariant (fun _ _ _ hw hs => step_coherent hw hs) coherent_empty
  have hknows := hcoherent.knows i run hrun
  rw [hp] at hknows
  obtain ⟨k,hk,hscope⟩ := hknows
  obtain ⟨s,hs,rfl⟩ := Option.map_eq_some_iff.mp hk
  exact ⟨s,hs,hscope⟩

/-- The account a call returns passes every test that the steps keep. -/
theorem returned_allowed {as : List Event}
    (h : Run (restrict (Steps (step env)) (T.Kept env)) World.empty as t) {i sid : ℕ}
    {run : Running} {accountId : String} (hrun : t.calls.get? i = some run)
    (hp : run.phase = .returned sid accountId) : T.allows run.call accountId = true := by
  have hboth : Coherent t ∧ InScope T t := by
    refine h.invariant (I := fun w => Coherent w ∧ InScope T w) ?_
      ⟨coherent_empty,fun _ _ hq => Dict.not_mem_empty hq⟩
    rintro w e u ⟨hw,hinv⟩ ⟨hsafe,hstep⟩
    exact ⟨step_coherent hw hstep,step_inScope hinv hw hsafe hstep⟩
  exact (hboth.2 i run hrun).returned sid accountId hp

/-- In every run whose steps meet `ScopeSafe`: a session that a call returns
carries the id of the call's API key, and the account it had when it was returned
is one of the assigned accounts if their scope is enabled. -/
theorem returned_session_isolated (env : Env) (as : List Event) (t : World)
    (h : Run (restrict (Steps (step env)) (ScopeSafe env)) World.empty as t) (i sid : ℕ)
    (run : Running) (accountId : String) (hrun : t.calls.get? i = some run)
    (hp : run.phase = .returned sid accountId) :
    (∃ s, t.registry.heap.get? sid = some s ∧ s.key.apiKeyId = run.call.apiKey.map (·.id)) ∧
      ∀ k, run.call.apiKey = some k → k.accountAssignmentScopeEnabled = true →
        accountId ∈ k.assignedAccountIds := by
  refine ⟨returned_session_key h.erase hrun hp,?_⟩
  intro k hk henabled
  have hallows := returned_allowed h hrun hp
  simpa [scopeTest,Call.allows,hk,henabled] using hallows

/-- Calls made with the API key `k`, for a session header. -/
def keyedCall (session : String) (assigned : List String) (previous : Option String) : Call where
  key := .make "session_header" session (some "k")
  apiKey := some ⟨"k",true,assigned⟩
  keyScope := rfl
  incomingTurnState := none
  incomingSessionKey := none
  previousResponseId := previous
  codexAffinity := false
  idleTtlSeconds := 60
  maxSessions := 4
  allowForwardToOwner := true

def aloneEnv : Env := ⟨id,id,"a",none,false,0⟩

def ownProbe : OwnerProbe := ⟨false,0,some (some "a"),some ("a",["a"]),some none⟩

/-- A lookup that scans the sessions stored, the number of which is `stored`. -/
def lookupEvents (i : ℕ) (c : Call) (stored : ℕ) : List Event :=
  [.call i c,.register i true,.acquire i 0]++List.replicate stored (.scan i)++[.select i 0]

/-- A session is created on account `b`, and its first response is indexed. -/
def createdOnB (assigned : List String) : List Event :=
  lookupEvents 0 (keyedCall "s" assigned none) 0 ++
    [.owner 0 ownProbe,.evict 0,.proceed 0,.created 0 ⟨"b",true⟩ 0,.claimed 0,.registered 0,
      .registerPreviousResponseId 0 "r"]

theorem reused_session_isolated :
    ∃ t run, Run (restrict (Steps (step aloneEnv)) (ScopeSafe aloneEnv)) World.empty
        (createdOnB ["b"] ++ lookupEvents 1 (keyedCall "s" ["b"] (some "r")) 1 ++ [.reused 1]) t ∧
      t.calls.get? 1 = some run ∧ run.phase = .returned 0 "b" ∧
      ∀ k, run.call.apiKey = some k → k.accountAssignmentScopeEnabled = true →
        "b" ∈ k.assignedAccountIds := by
  obtain ⟨t,hrun,hphase⟩ := exists_run_of_exec (f := step aloneEnv) (G := ScopeSafe aloneEnv)
    (s := World.empty)
    (l := createdOnB ["b"] ++ lookupEvents 1 (keyedCall "s" ["b"] (some "r")) 1 ++ [.reused 1])
    (p := fun t => (t.calls.get? 1).map Running.phase = some (.returned 0 "b")) (by decide)
  obtain ⟨run,hget,hp⟩ := Option.map_eq_some_iff.mp hphase
  exact ⟨t,run,hrun,hget,hp,(returned_session_isolated aloneEnv _ t hrun 1 0 run "b" hget hp).2⟩

/-- The accounts assigned to the API key change from `a` and `b` to `a`. A
request with another session header continues the response `r`: the index leads
to the session on `b`, and the call returns it. -/
theorem previous_response_escapes_scope : ∃ t run, Run (Steps (step aloneEnv)) World.empty
        (createdOnB ["a","b"] ++ lookupEvents 1 (keyedCall "t" ["a"] (some "r")) 1 ++
          [.owner 1 ownProbe,.refreshed 1,.evict 1,.proceed 1]) t ∧
      t.calls.get? 1 = some run ∧ run.call.apiKey = some ⟨"k",true,["a"]⟩ ∧
      run.phase = .returned 0 "b" ∧ "b" ∉ ["a"] := by
  obtain ⟨t,hrun,hphase⟩ := exists_steps_of_exec (f := step aloneEnv) (s := World.empty)
    (l := createdOnB ["a","b"] ++ lookupEvents 1 (keyedCall "t" ["a"] (some "r")) 1 ++
      [.owner 1 ownProbe,.refreshed 1,.evict 1,.proceed 1])
    (p := fun t => (t.calls.get? 1).map (fun run => (run.call.apiKey,run.phase)) =
      some (some ⟨"k",true,["a"]⟩,.returned 0 "b")) (by decide)
  obtain ⟨run,hget,hp⟩ := Option.map_eq_some_iff.mp hphase
  simp only [Prod.mk.injEq] at hp
  exact ⟨t,run,hrun,hget,hp.1,hp.2,by decide⟩

/-- One call at most is in the locked block, what the maps and the futures lead to
carries the key it is found under, and calls of different API keys are never
returned one session. -/
theorem registry_coherent {env : Env} {t : World} {as : List Event}
    (h : Run (Steps (step env)) World.empty as t) :
    (∀ i j run other, t.calls.get? i = some run → t.calls.get? j = some other →
      run.phase.locked = true → other.phase.locked = true → i = j) ∧
    t.registry.Consistent ∧
    (∀ f k sid, t.futures.get? f = some ⟨k,.result sid⟩ → t.registry.keyOf sid = some k) ∧
    ∀ i j run other sid a b, t.calls.get? i = some run → t.calls.get? j = some other →
      run.phase = .returned sid a → other.phase = .returned sid b →
      run.call.apiKeyId = other.call.apiKeyId := by
  have hw : Coherent t := h.invariant (fun _ _ _ hw hs => step_coherent hw hs) coherent_empty
  refine ⟨?_,hw.registry,hw.results,?_⟩
  · intro i j run other hi hj hl ho
    exact Option.some.inj ((hw.lock i run hi hl).symm.trans (hw.lock j other hj ho))
  · intro i j run other sid a b hi hj hp hq
    obtain ⟨s,hs,hkey⟩ := returned_session_key h hi hp
    obtain ⟨r,hr,hother⟩ := returned_session_key h hj hq
    cases hs.symm.trans hr
    exact hkey.symm.trans hother

theorem created_session_coherent :
    ∃ t, Run (Steps (step aloneEnv)) World.empty (createdOnB ["b"]) t ∧
      (t.calls.get? 0).map Running.phase = some (.returned 0 "b") ∧ t.registry.Consistent :=
  exists_steps_with (fun _ hrun hphase => ⟨hphase,(registry_coherent hrun).2.1⟩) (by decide)

end CodexLb.Bridge
