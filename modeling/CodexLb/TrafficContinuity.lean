import CodexLb.BridgeIsolation
import CodexLb.StreamOwner
import CodexLb.StreamRounds
import CodexLb.TrafficCarrySteps
import CodexLb.TrafficDeliveryRuns

/-!
# A continuation and the account that owns it

A request that continues a response has to go to the account that owns it. The
stream checks the account of every round, so there it always does. The bridge
checks the account when it looks a session up or creates one, but not of the
session that the previous response leads to. What it has checked stays right as
long as the session stays on its account while a continuation waits.

The reconnect of a closed session does not look at the request it is made for.
When the session's account cannot be refreshed, the session goes on with another
account and the request is sent there with its previous response id.
-/
namespace CodexLb.Traffic
open Runs

section
variable {F : Type}

/-- A continuation whose owner is known is on the account of its owner. -/
def Owned (r : Request F) (account : String) : Prop :=
  r.requestText.previousResponseId ≠ none → ∀ a ∈ r.preferredAccountId, account = a

def ownerRule (env : Env F) : Rule env where
  sendable _ := Owned
  anchored _ _ _ := True
  prepared _ := True
  sendable_mono _ h := h
  prepared_warmup _ := trivial
  prepared_unanchored _ h := h

/-- A call of the lookup with this previous response id and preferred account has
returned a session, on the account. -/
def ReturnedOn (w : Bridge.World) (previous preferred : Option String) (account : String) : Prop :=
  ∃ q ∈ w.calls.rows, q.2.call.previousResponseId = previous ∧
    q.2.call.preferredAccountId = preferred ∧ q.2.phase.account? = some account

section
variable {benv : Bridge.Env} {bs : List Bridge.Event} {w : Bridge.World} {s : Session F}

theorem ReturnedOn.owner {x a account : String} (h : ReturnedOn w (some x) (some a) account)
    (hw : Run (restrict (Steps (Bridge.step benv)) (Bridge.OwnerSafe benv)) .empty bs w) :
    account = a := by
  obtain ⟨⟨i,run⟩,hmem,hprevious,hpreferred,hphase⟩ := h
  obtain ⟨sid,hp⟩ := Bridge.Phase.account?_eq_some.mp hphase
  have hallows := Bridge.returned_allowed hw (Dict.get?_eq_some.mpr hmem) hp
  dsimp only at hprevious hpreferred
  simp only [Bridge.ownerTest,Bridge.Call.ownedBy,hprevious,hpreferred] at hallows
  exact of_decide_eq_true hallows

theorem owned_of_returned {r : Request F} {previous preferred : Option String}
    (hw : Run (restrict (Steps (Bridge.step benv)) (Bridge.OwnerSafe benv)) .empty bs w)
    (h : ReturnedOn w previous preferred s.accountId)
    (hprevious : r.requestText.previousResponseId = previous)
    (hpreferred : r.preferredAccountId = preferred) : Owned r s.accountId := by
  intro hne o ho
  rw [hprevious] at hne
  obtain ⟨x,rfl⟩ := Option.ne_none_iff_exists'.mp hne
  obtain rfl : preferred = some o := hpreferred.symm.trans ho
  exact h.owner hw

end

variable [DecidableEq F] {env : Env F} {a : Anchor F}

theorem trimStoredPrefix_keeps {d : Prepared F} (h : d.Consistent) :
    (trimStoredPrefix env a d).preferredAccountId = d.request.preferredAccountId ∧
      (trimStoredPrefix env a d).requestText.previousResponseId = d.payload.previousResponseId := by
  unfold trimStoredPrefix
  split
  · exact ⟨rfl,prepareRequest_text _ d.request.clientInput
      (d.request.removed++d.payload.input.take a.lastCompletedInputCount)⟩
  · exact ⟨rfl,h.payload⟩

/-- The request of a session keeps what the lookup was made for, or has no previous
response id of its own and takes the account of the durable row. -/
theorem attachToSession_preferred (b : Bool) (a : Anchor F) (c : ClientRequest F) :
    let r := attachToSession env b a (prepareStream env c)
    r.requestText.previousResponseId = (prepareStream env c).payload.previousResponseId ∧
        r.preferredAccountId = c.preferredAccountId ∨
      (prepareStream env c).payload.previousResponseId = none ∧
        r.preferredAccountId = c.durable.map (·.accountId) := by
  obtain ⟨hpreferred,hprevious⟩ := @trimStoredPrefix_keeps _ _ env
    (adoptAnchor a (prepareStream env c)) _ (injectSessionAnchor_consistent (b := b)
      (a := adoptAnchor a (prepareStream env c)) (prepareStream_consistent (c := c)))
  have hown : (prepareStream env c).request.preferredAccountId = c.preferredAccountId := rfl
  dsimp only [attachToSession]
  rw [hpreferred,hprevious]
  unfold injectSessionAnchor
  split
  · exact .inl ⟨rfl,hown⟩
  · split_ifs with hc
    · simp only [Bool.and_eq_true,decide_eq_true_eq] at hc
      exact .inr ⟨hc.1.2,rfl⟩
    · exact .inl ⟨rfl,hown⟩

/-- The condition on a step. A request that comes to the session is one the lookup
has returned it for, on its present account; if it has no previous response id but
a durable row, the row names that account. While a continuation with a known owner
waits, a reconnect opens no other account than the session's. -/
def OwnerKept (env : Env F) (w : Bridge.World) (s : Session F) : Event F → Prop
  | .arrive _ c =>
    ReturnedOn w (prepareStream env c).payload.previousResponseId c.preferredAccountId
        s.accountId ∧
      ((prepareStream env c).payload.previousResponseId = none →
        ∀ d ∈ c.durable, d.accountId = s.accountId)
  | .rearrive _ m _ _ a => ReturnedOn w m.previousResponseId a s.accountId
  | .recover _ l | .retry _ l | .reconnect l =>
    (∀ x ∈ l, x.outcome = .opened → x.account = some s.accountId) ∨
      s.AllWaiting (fun _ r _ => r.requestText.previousResponseId = none ∨
        r.preferredAccountId = none) s.accountId
  | _ => True

theorem connectLoop_opened {current account : String} {again : Bool} {excluded : List String}
    {l : List ConnectAttempt} (h : connectLoop current again excluded l = some account) :
    ∃ x ∈ l, x.outcome = .opened ∧ x.account = some account := by
  fun_induction connectLoop current again excluded l with
  | case1 => cases h
  | _ => simp_all

section
variable {benv : Bridge.Env} {bs : List Bridge.Event} {w : Bridge.World} {s : Session F}

theorem OwnerKept.fits {e : Event F}
    (hw : Run (restrict (Steps (Bridge.step benv)) (Bridge.OwnerSafe benv)) .empty bs w)
    (hs : Carried (ownerRule env) s) (h : OwnerKept env w s e) : Fits (ownerRule env) s e := by
  have hmoves : ∀ l, ((∀ x ∈ l, x.outcome = .opened → x.account = some s.accountId) ∨
      s.AllWaiting (fun _ r _ => r.requestText.previousResponseId = none ∨
        r.preferredAccountId = none) s.accountId) →
      ∀ b ∈ s.connect l, Moves (ownerRule env) s b := by
    intro l hl b hb
    refine ⟨?_,trivial⟩
    rcases hl with hstays | hnone
    · obtain ⟨x,hx,hopened,haccount⟩ := connectLoop_opened hb
      obtain rfl := Option.some.inj (haccount.symm.trans (hstays x hx hopened))
      exact hs.waiting
    · intro i p r hp hmem hr hne o ho
      rcases hnone i p r hp hmem hr with hprevious | hpreferred
      · exact absurd hprevious hne
      · cases hpreferred.symm.trans ho
  cases e with
  | arrive i c =>
    refine ⟨⟨?_,trivial⟩,trivial⟩
    rcases attachToSession_preferred s.codexSession s.anchor c with
      ⟨hprevious,hpreferred⟩ | ⟨hnone,hpreferred⟩
    · exact owned_of_returned hw h.1 hprevious hpreferred
    · intro _ o ho
      obtain ⟨d,hd,rfl⟩ := Option.map_eq_some_iff.mp (hpreferred.symm.trans ho)
      exact (h.2 hnone d hd).symm
  | rearrive i m c l a =>
    exact ⟨owned_of_returned hw h (prepareRequest_text m c l) rfl,trivial⟩
  | recover i l | retry i l | reconnect l => exact hmoves l h
  | receive ev o => exact fun _ _ _ => trivial
  | _ => trivial

end

instance (w : Bridge.World) (x y : Option String) (a : String) : Decidable (ReturnedOn w x y a) := by
  unfold ReturnedOn; infer_instance

instance (env : Env F) (w : Bridge.World) (s : Session F) (e : Event F) :
    Decidable (OwnerKept env w s e) := by
  rcases e with ⟨⟩ <;> dsimp only [OwnerKept] <;> infer_instance

/-- A message with a previous response id is on a socket of the account that owns
it, and so is every attempt to stream one. -/
theorem continuation_sent_to_owner (env : Env F) (benv : Bridge.Env) {bs : List Bridge.Event}
    {w : Bridge.World}
    (hw : Run (restrict (Steps (Bridge.step benv)) (Bridge.OwnerSafe benv)) .empty bs w)
    (a : String) (b : Bool) :
    (∀ es s, Run (restrict (Steps (step env)) (OwnerKept env w)) (Session.start a b) es s →
      ∀ k ∈ s.sockets, ∀ m ∈ k.sent, m.message.previousResponseId ≠ none →
        ∀ o ∈ m.preferredAccountId, k.accountId = o) ∧
    ∀ (cfg : Streams.Config) (script : Streams.Script), ∀ o ∈ cfg.owner, ∀ account,
      .attempt account ∈ (Streams.streamWithRetry cfg script).acts → account = o := by
  constructor
  · intro es s hrun k hk m hm hprev o ho
    have hcarried := hrun.invariant (I := Carried (ownerRule env))
      (fun _ _ _ hs hstep => step_carried hs (hstep.1.fits hw hs) hstep.2) (carried_start b trivial)
    obtain ⟨r,howned,htext,hpreferred,-⟩ :=
      hcarried.sent k.traffic (List.mem_map_of_mem hk) m hm hprev
    rw [htext] at hprev
    rw [hpreferred] at ho
    exact howned hprev o ho
  · intro cfg script o ho
    exact Streams.on_streamWithRetry ho script

end

def continuation : ClientRequest (List Item) :=
  {textRequest "go on" with
    payload := ⟨some "r",[userItem "go on"],true⟩
    preferredAccountId := some "b"}

/-- The first pass finds the account of the session, the second one another. -/
def failover : List ConnectAttempt :=
  [⟨some "b",.refreshFailed true,true⟩,⟨some "other",.opened,true⟩]

/-- A continuation on a closed session, up to the moment its message is on the wire. -/
def reopenedEvents (attempts : List ConnectAttempt) : List (Event (List Item)) :=
  [.close,.arrive 0 continuation,.recover 0 attempts,.prewarm 0,.enter 0 8,.acquire 0,
    .admission 0 .granted,.write 0]

/-- A session is created on account `b`, and a call that continues its first
response is given it. -/
def continuedLookup : List Bridge.Event :=
  Bridge.createdOnB ["b"] ++
    Bridge.lookupEvents 1 {Bridge.keyedCall "s" ["b"] (some "r") with
      preferredAccountId := some "b"} 1 ++ [.reused 1]

def ownedConfig : Streams.Config :=
  {Streams.plainConfig with previousResponseId := some "resp_1",owner := some "acc"}

theorem reopened_continuation_sent_to_owner :
    (∃ w s, Run (restrict (Steps (Bridge.step Bridge.aloneEnv)) (Bridge.OwnerSafe Bridge.aloneEnv))
        .empty continuedLookup w ∧
      Run (restrict (Steps (step plainEnv)) (OwnerKept plainEnv w)) (Session.start "b" true)
        (reopenedEvents [⟨some "b",.opened,true⟩]) s ∧
      s.sockets.map (fun k => (k.accountId,k.sent.map (·.message.previousResponseId))) =
        [("b",[]),("b",[some "r"])] ∧
      ∀ k ∈ s.sockets, ∀ m ∈ k.sent, m.message.previousResponseId ≠ none →
        ∀ o ∈ m.preferredAccountId, k.accountId = o) ∧
    ∀ account, .attempt account ∈ (Streams.streamWithRetry ownedConfig
      (Streams.refusedScript ⟨[Streams.completedLine],none⟩)).acts → account = "acc" := by
  obtain ⟨w,hw,hserved⟩ := exists_run_of_exec (f := Bridge.step Bridge.aloneEnv)
    (G := Bridge.OwnerSafe Bridge.aloneEnv) (s := .empty) (l := continuedLookup)
    (p := fun w => (exec (step plainEnv) (OwnerKept plainEnv w) (Session.start "b" true)
      (reopenedEvents [⟨some "b",.opened,true⟩])).any fun s => s.sockets.map (fun k =>
        (k.accountId,k.sent.map (·.message.previousResponseId))) = [("b",[]),("b",[some "r"])])
    (by decide +kernel)
  obtain ⟨s,hrun,hs⟩ := exists_run_of_exec hserved
  obtain ⟨hbridge,hstream⟩ := continuation_sent_to_owner plainEnv Bridge.aloneEnv hw "b" true
  exact ⟨⟨w,s,hw,hrun,hs,hbridge _ s hrun⟩,hstream ownedConfig _ "acc" rfl⟩

theorem continuation_follows_failover :
    ∃ s, Run (Steps (step plainEnv)) (Session.start "b" true) (reopenedEvents failover) s ∧
      ∃ k ∈ s.sockets, k.accountId = "other" ∧
        ∃ m ∈ k.sent, m.message.previousResponseId = some "r" ∧
          m.preferredAccountId = some "b" :=
  exists_steps_of_exec (by decide +kernel)

end CodexLb.Traffic
