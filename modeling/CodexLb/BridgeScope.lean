import CodexLb.BridgeMoves

/-!
# The account scope of a call

A call reaches a session through its key, a turn-state alias, the
previous-response index, the future of another call, or by creating it. The
account of the session is checked against the accounts assigned to the API key on every
way but one: the session of the previous response is taken without the check.
The account of a session that a call has chosen may also change before the call
returns it, since the tasks of the session do not take the bridge lock.

The account that owns the response a call continues is checked on the same ways.
`ScopeSafe` and `OwnerSafe` exclude the two exceptions for the one and the other.
-/
namespace CodexLb.Bridge
open Runs Registry

/-- The account is in the scope of the call's API key. -/
def Call.allows (c : Call) (accountId : String) : Bool :=
  match c.apiKey with
  | none => true
  | some k => !k.accountAssignmentScopeEnabled || accountId ∈ k.assignedAccountIds

/-- The account owns the response the call continues. -/
def Call.ownedBy (c : Call) (accountId : String) : Bool :=
  match c.previousResponseId,c.preferredAccountId with
  | some _,some preferred => accountId = preferred
  | _,_ => true

/-- A test of the account of a call that a session it reuses and the account of a
new session pass. -/
structure AccountTest where
  allows : Call → String → Bool
  reused : ∀ {c key s}, reusable c key s = true → allows c s.account.id = true
  created : ∀ {c account}, selectable c account = true → allows c account.id = true

def scopeTest : AccountTest where
  allows := Call.allows
  reused h := by
    simp only [reusable,Bool.and_eq_true] at h
    exact h.1.1.2
  created h := by
    simp only [selectable,Bool.and_eq_true] at h
    exact h.1

def ownerTest : AccountTest where
  allows := Call.ownedBy
  reused h := by
    simp only [reusable,Bool.and_eq_true] at h
    exact h.2
  created h := by
    simp only [selectable,Bool.and_eq_true] at h
    exact h.2

def Phase.chosen (i : ℕ) : Phase → Option ℕ
  | .reusing sid | .refreshing _ sid => some sid
  | .evicting l | .weighing l _ _ | .closing l _ _ => l.sessionToReturnAfterClose
  | .claiming _ | .registering _ => some i
  | _ => none

def Phase.account? : Phase → Option String
  | .returned _ a => some a
  | _ => none

theorem Phase.account?_eq_some {p : Phase} {a : String} :
    p.account? = some a ↔ ∃ sid, p = .returned sid a := by
  cases p <;> simp [Phase.account?]

/-- The steps that keep the test: the previous-response index leads a call only to
a session whose account passes it, and a session moves only to an account that
passes it for the calls which have chosen the session. -/
def AccountTest.Kept (T : AccountTest) (env : Env) (w : World) : Event → Prop
  | .owner i _ =>
    ∀ run ∈ w.calls.get? i,∀ response ∈ run.call.previousResponseId,
      ∀ key ∈ w.registry.previousResponseIndex.get? (env.strip response,run.call.apiKeyId),
        ∀ q ∈ w.registry.session? key,T.allows run.call q.2.account.id = true
  | .session sid u =>
    ∀ q ∈ w.calls.rows,q.2.phase.chosen q.1 = some sid → T.allows q.2.call u.account.id = true
  | _ => True

instance (T : AccountTest) (env : Env) (w : World) (e : Event) : Decidable (T.Kept env w e) := by
  rcases e with ⟨⟩ <;> dsimp only [AccountTest.Kept] <;> infer_instance

/-- The accounts stay in the scope of the API keys. -/
abbrev ScopeSafe := scopeTest.Kept

/-- The accounts stay those that own what the calls continue. -/
abbrev OwnerSafe := ownerTest.Kept

structure Phase.Allowed (T : AccountTest) (accountOf : ℕ → Option Account) (c : Call) (i : ℕ) (p : Phase) : Prop where
  chosen : ∀ sid account, p.chosen i = some sid → accountOf sid = some account →
    T.allows c account.id = true
  returned : ∀ sid accountId, p = .returned sid accountId → T.allows c accountId = true

/-- Every call has chosen, and has returned, an account that passes the test. -/
def InScope (T : AccountTest) (w : World) : Prop :=
  ∀ i run, w.calls.get? i = some run → run.phase.Allowed T w.registry.accountOf run.call i

theorem accountId_of_keyOf {w : World} {sid : ℕ} {k : SessionKey}
    (h : w.registry.keyOf sid = some k) :
    ∃ account, w.registry.accountOf sid = some account ∧ w.accountId sid = account.id := by
  obtain ⟨s,hs,-⟩ := Option.map_eq_some_iff.mp h
  exact ⟨s.account,by rw [Registry.accountOf,hs]; rfl,by rw [World.accountId,hs]; rfl⟩

section Stages
variable {T : AccountTest} {env : Env} {c : Call} {l : Locals} {r : Registry} {i sid : ℕ}

theorem continuityOrCapacity_chosen :
    (continuityOrCapacity c l r).chosen i = l.sessionToReturnAfterClose ∧
      ∀ j a, continuityOrCapacity c l r ≠ .returned j a := by
  unfold continuityOrCapacity
  split_ifs
  · exact ⟨rfl,nofun⟩
  · split
    · exact ⟨rfl,nofun⟩
    · split_ifs <;> exact ⟨rfl,nofun⟩
  · exact ⟨rfl,nofun⟩
  · exact ⟨rfl,nofun⟩

theorem continuityOrCapacity_allowed {accountOf : ℕ → Option Account}
    (hret : ∀ sid account, l.sessionToReturnAfterClose = some sid → accountOf sid = some account →
      T.allows c account.id = true) :
    (continuityOrCapacity c l r).Allowed T accountOf c i := by
  obtain ⟨hchosen,hreturned⟩ := continuityOrCapacity_chosen (c := c) (l := l) (r := r) (i := i)
  refine ⟨?_,fun j a hj => absurd hj (hreturned j a)⟩
  rw [hchosen]
  exact hret

theorem selectExisting_allowed (now : ℤ) :
    (selectExisting env c now l r).2.Allowed T r.accountOf c i := by
  unfold selectExisting
  split
  · exact ⟨nofun,nofun⟩
  · rename_i sid s hs
    split_ifs with hreuse
    · refine ⟨?_,nofun⟩
      intro j account hj haccount
      cases hj
      obtain ⟨_,-,hmap⟩ := Option.bind_eq_some_iff.mp hs
      obtain ⟨_,hheap,he⟩ := Option.map_eq_some_iff.mp hmap
      cases he
      rw [Registry.accountOf,hheap] at haccount
      cases haccount
      exact T.reused hreuse
    · exact ⟨nofun,nofun⟩
    · exact ⟨nofun,nofun⟩
    · exact ⟨nofun,nofun⟩
    · exact ⟨nofun,nofun⟩

theorem session?_account {key : SessionKey} {s : Session} (hs : r.session? key = some (sid,s)) :
    r.accountOf sid = some s.account := by
  obtain ⟨_,-,hmap⟩ := Option.bind_eq_some_iff.mp hs
  obtain ⟨_,hheap,he⟩ := Option.map_eq_some_iff.mp hmap
  cases he
  rw [Registry.accountOf,hheap]
  rfl

theorem lookupPrevious_allowed {now : ℤ} (inflight : Dict SessionKey ℕ)
    (hret : l.sessionToReturnAfterClose = none)
    (hindex : ∀ response ∈ c.previousResponseId,
      ∀ key ∈ r.previousResponseIndex.get? (env.strip response,c.apiKeyId),
        ∀ q ∈ r.session? key, T.allows c q.2.account.id = true) :
    (lookupPrevious env c now l inflight r).2.Allowed T r.accountOf c i := by
  have hnone : ∀ (l' : Locals) (q : Registry), l'.sessionToReturnAfterClose = none →
      (continuityOrCapacity c l' q).Allowed T r.accountOf c i := by
    intro l' q hl'
    apply continuityOrCapacity_allowed
    intro j account hj
    rw [hl'] at hj
    cases hj
  have hstep := lookupPrevious_previousStep env c now l inflight r
  generalize lookupPrevious env c now l inflight r = out at hstep ⊢
  cases hstep with
  | continues | forgets => exact hnone l _ hret
  | finds hresponse hkey hs _ hfound hnext =>
    rcases hnext with ⟨-,-,rfl⟩ | ⟨-,-,rfl⟩
    · refine ⟨?_,nofun⟩
      intro j account hj haccount
      cases hj
      rw [session?_account hs] at haccount
      cases haccount
      exact hindex _ hresponse _ hkey _ hs
    · exact hnone _ _ (by rw [hfound]; exact hret)

theorem session?_pop {key k : SessionKey} {q : ℕ × Session} (hq : (r.pop key).session? k = some q) :
    r.session? k = some q := by
  obtain ⟨j,hj,hmap⟩ := Option.bind_eq_some_iff.mp hq
  simp only [Registry.pop,Dict.get?_pop] at hj
  split_ifs at hj
  exact Option.bind_eq_some_iff.mpr ⟨j,hj,hmap⟩

theorem findInflight_allowed {now : ℤ} (inflight : Dict SessionKey ℕ)
    (hret : l.sessionToReturnAfterClose = none)
    (hindex : ∀ response ∈ c.previousResponseId,
      ∀ key ∈ r.previousResponseIndex.get? (env.strip response,c.apiKeyId),
        ∀ q ∈ r.session? key, T.allows c q.2.account.id = true) :
    (findInflight env c now l inflight r).2.Allowed T r.accountOf c i := by
  unfold findInflight discardExisting
  cases l.existing with
  | none => exact lookupPrevious_allowed inflight hret hindex
  | some existing =>
    refine lookupPrevious_allowed (r := r.pop l.key) inflight hret ?_
    exact fun response hresponse key hkey q hq =>
      hindex response hresponse key hkey q (session?_pop hq)

end Stages

theorem Phase.Knows.chosen {keyOf futureKey : ℕ → Option SessionKey} {a : Option String} {i sid : ℕ}
    {p : Phase} (h : p.Knows keyOf futureKey a i) (hsid : p.chosen i = some sid) :
    ∃ k, keyOf sid = some k := by
  cases p with
  | reusing j =>
    cases hsid
    exact ⟨_,h.choose_spec.1⟩
  | refreshing l j =>
    cases hsid
    exact ⟨_,h.2.2⟩
  | evicting l | weighing l rows idle => exact ⟨_,h.1.returns sid hsid⟩
  | closing l todo stage => exact ⟨_,h.returns sid hsid⟩
  | claiming l | registering l =>
    cases hsid
    exact ⟨_,h.2⟩
  | _ => cases hsid

namespace InScope
variable {T : AccountTest} {env : Env} {w t : World} {i : ℕ} {run : Running} {p : Phase}

theorem move (h : InScope T w) (hcalls : t.calls = w.calls.set i {run with phase := p})
    (haccounts : ∀ sid, t.registry.accountOf sid = w.registry.accountOf sid)
    (hp : p.Allowed T w.registry.accountOf run.call i) : InScope T t := by
  have heq : t.registry.accountOf = w.registry.accountOf := funext haccounts
  intro j q hq
  rw [hcalls,Dict.get?_set] at hq
  rw [heq]
  split_ifs at hq with hj
  · cases hq
    subst hj
    exact hp
  · exact h j q hq

theorem allows_chosen (h : InScope T w) (hrun : w.calls.get? i = some run) {sid : ℕ}
    (hsid : run.phase.chosen i = some sid) {k : SessionKey}
    (hkey : w.registry.keyOf sid = some k) : T.allows run.call (w.accountId sid) = true := by
  obtain ⟨account,haccount,hid⟩ := accountId_of_keyOf hkey
  rw [hid]
  exact (h i run hrun).chosen sid account hsid haccount

theorem allowed_returned {accountOf : ℕ → Option Account} {c : Call} {sid : ℕ} {accountId : String}
    (h : T.allows c accountId = true) : (Phase.returned sid accountId).Allowed T accountOf c i := by
  refine ⟨nofun,?_⟩
  intro j a hj
  cases hj
  exact h

end InScope

end CodexLb.Bridge
