import CodexLb.DurableSessions
import CodexLb.Dict
import CodexLb.Runs

/-!
# Leases on one durable session row

Any number of instances claim one row, renew it, release it or mark it as
draining. A claim is one step. The other calls read the row in one step and
commit in a later one. The system also keeps the list of granted leases.

Epochs only grow, and no two instances are granted the same one. A commit does
not check the row again, so an instance whose lease was taken over between its
read and its commit still writes: its release removes the new owner. When no
lease ends while another call is between its read and its commit, every commit
finds the row with the owner and epoch it was issued for.
-/
namespace CodexLb.DurableBridge.Leases
open Runs

inductive Request where
  | renew (w : Renewal)
  | release (w : Release)
  | drain (instanceId : String) (now : ℤ)
  deriving DecidableEq, Repr

namespace Request

def pair : Request → Option (String × ℕ)
  | .renew w => some (w.instanceId,w.ownerEpoch)
  | .release w => some (w.instanceId,w.ownerEpoch)
  | .drain _ _ => none

def accepts (r : Record) : Request → Bool
  | .renew w => r.ownedBy w.instanceId w.ownerEpoch
  | .release w => r.ownedBy w.instanceId w.ownerEpoch
  | .drain instanceId _ => r.ownerInstanceId = some instanceId && r.state = .active

def apply (r : Record) : Request → Record
  | .renew w => w.apply r
  | .release w => w.apply r
  | .drain _ now => markDraining now r

end Request

structure Write where
  request : Request
  read : Record
  deriving DecidableEq, Repr

structure System where
  row : Option Record
  writes : Dict ℕ Write
  grants : List (String × ℕ)

inductive Event where
  | claim (c : Claim)
  | read (k : ℕ) (q : Request)
  | commit (k : ℕ)
  deriving DecidableEq, Repr

namespace System
variable (s : System)

def start : System := ⟨none,Dict.empty,[]⟩

def owner : Option String := s.row.bind Record.ownerInstanceId

def epoch : ℕ := s.row.elim 0 Record.ownerEpoch

/-- The claim is granted if the row it returns names the instance. -/
def claim (c : Claim) : System :=
  let row := claimSession c s.row
  {s with
    row := some row
    grants := if row.ownerInstanceId = some c.instanceId then (c.instanceId,row.ownerEpoch)::s.grants
      else s.grants}

def commit (k : ℕ) (w : Write) : System := {s with
  row := s.row.map (w.read.flush (w.request.apply w.read))
  writes := s.writes.pop k}

end System

def step (s : System) : Event → Option System
  | .claim c => some (s.claim c)
  | .read k q =>
    if (s.writes.get? k).isSome then none
    else match s.row with
      | none => some s
      | some r => if q.accepts r then some {s with writes := s.writes.set k ⟨q,r⟩} else some s
  | .commit k => (s.writes.get? k).map (s.commit k)

/-- What a step does: a claim, a read that finds nothing to write, a read that
will write, or a commit. -/
inductive SystemStep (s : System) : Event → System → Prop
  | claim (c : Claim) : SystemStep s (.claim c) (s.claim c)
  | skip {k : ℕ} {q : Request} : SystemStep s (.read k q) s
  | read {k : ℕ} {q : Request} {r : Record} (hrow : s.row = some r) (hq : q.accepts r = true) :
      SystemStep s (.read k q) {s with writes := s.writes.set k ⟨q,r⟩}
  | commit {k : ℕ} {w : Write} (hw : s.writes.get? k = some w) :
      SystemStep s (.commit k) (s.commit k w)

variable {s t : System} {e : Event}

theorem step_cases (h : step s e = some t) : SystemStep s e t := by
  cases e with
  | claim c =>
    cases h
    exact .claim c
  | read k q =>
    simp only [step] at h
    split_ifs at h
    split at h
    · cases h
      exact .skip
    · rename_i r hrow
      split_ifs at h with hq
      · cases h
        exact .read hrow hq
      · cases h
        exact .skip
  | commit k =>
    obtain ⟨w,hw,rfl⟩ := Option.map_eq_some_iff.mp h
    exact .commit hw

theorem flush_epoch (q : Request) (r cur : Record) :
    (r.flush (q.apply r) cur).ownerEpoch = cur.ownerEpoch := by
  cases q <;> exact written_self _ _

variable {q : Request} {r : Record}

theorem flush_owner {cur : Record} :
    (r.flush (q.apply r) cur).ownerInstanceId = cur.ownerInstanceId ∨
      (r.flush (q.apply r) cur).ownerInstanceId = none := by
  cases q with
  | renew w | drain i now => exact .inl (written_self _ _)
  | release w =>
    change written r.ownerInstanceId none cur.ownerInstanceId = cur.ownerInstanceId ∨
      written r.ownerInstanceId none cur.ownerInstanceId = none
    unfold written
    split_ifs
    · exact .inl rfl
    · exact .inr rfl

variable {k : ℕ} {w : Write}

theorem commit_epoch : (s.commit k w).epoch = s.epoch := by
  unfold System.commit System.epoch
  cases s.row with
  | none => rfl
  | some cur => exact flush_epoch w.request w.read cur

theorem commit_owner : (s.commit k w).owner = s.owner ∨ (s.commit k w).owner = none := by
  unfold System.commit System.owner
  cases s.row with
  | none => exact .inl rfl
  | some cur => exact flush_owner

variable {c : Claim}

theorem claim_cases :
    ((s.claim c).owner = s.owner ∧ (s.claim c).epoch = s.epoch ∧ (s.claim c).grants = s.grants) ∨
      ((s.claim c).owner = some c.instanceId ∧
        (s.claim c).grants = (c.instanceId,(s.claim c).epoch)::s.grants ∧
        (((s.claim c).epoch = s.epoch+1 ∧ s.owner ≠ some c.instanceId) ∨
          ((s.claim c).epoch = s.epoch ∧ s.owner = some c.instanceId))) := by
  rcases claimSession_cases c s.row with ⟨hrow,hother⟩ | ⟨hown,hepoch⟩
  · left
    refine ⟨?_,?_,?_⟩
    · simp only [System.claim,System.owner,← hrow]
    · simp only [System.claim,System.epoch,← hrow]
    · simp only [System.claim,if_neg hother]
  · right
    refine ⟨hown,?_,hepoch⟩
    simp only [System.claim,if_pos hown]
    rfl

/-- Epochs do not decrease, and a new owner has a larger one. -/
def Advances (s t : System) : Prop :=
  s.epoch ≤ t.epoch ∧ ∀ j, t.owner = some j → s.owner ≠ some j → s.epoch < t.epoch

theorem step_advances (h : step s e = some t) : Advances s t := by
  cases step_cases h with
  | claim c =>
    rcases claim_cases with ⟨ho,he,_⟩ | ⟨ho,_,⟨he,_⟩ | ⟨he,hs⟩⟩
    · refine ⟨he.ge,fun j hj hne => ?_⟩
      rw [ho] at hj
      exact absurd hj hne
    · exact ⟨by omega,fun j _ _ => by omega⟩
    · refine ⟨he.ge,fun j hj hne => ?_⟩
      rw [ho] at hj
      exact absurd (hs.trans hj) hne
  | skip | read _ _ => exact ⟨le_refl _,fun j hj hne => absurd hj hne⟩
  | @commit k w _ =>
    refine ⟨(commit_epoch).ge,fun j hj hne => ?_⟩
    rcases commit_owner with ho | ho
    · rw [ho] at hj
      exact absurd hj hne
    · rw [ho] at hj
      cases hj

variable {es : List Event}

theorem run_epoch_le (h : Run (Steps step) s es t) : s.epoch ≤ t.epoch :=
  h.relates (I := fun _ => True) (R := fun s t => s.epoch ≤ t.epoch) (fun _ => le_refl _)
    (fun _ _ _ => le_trans) (fun _ _ _ _ hs => ⟨trivial,(step_advances hs).1⟩) trivial

/-- No epoch beyond the current one was granted, the current one only to the
present owner, and none to two instances. -/
structure Fenced (s : System) : Prop where
  bounded : ∀ i e, (i,e) ∈ s.grants → e ≤ s.epoch
  current : ∀ i, (i,s.epoch) ∈ s.grants → ∀ j, s.owner = some j → j = i
  unique : ∀ i j e, (i,e) ∈ s.grants → (j,e) ∈ s.grants → i = j

theorem Fenced.keep (h : Fenced s) (hg : t.grants = s.grants) (he : t.epoch = s.epoch)
    (ho : ∀ j, t.owner = some j → s.owner = some j) : Fenced t := by
  refine ⟨?_,?_,?_⟩
  · rw [hg,he]
    exact h.bounded
  · intro i hi j hj
    rw [hg,he] at hi
    exact h.current i hi j (ho j hj)
  · rw [hg]
    exact h.unique

theorem Fenced.regrant {j : String} (h : Fenced s)
    (he : ((s.claim c).epoch = s.epoch+1 ∧ s.owner ≠ some c.instanceId) ∨ ((s.claim c).epoch =
      s.epoch ∧ s.owner = some c.instanceId)) (hj : (j,(s.claim c).epoch) ∈ s.grants) :
    j = c.instanceId := by
  rcases he with ⟨he,_⟩ | ⟨he,ho⟩
  · have hle := h.bounded j _ hj
    omega
  · rw [he] at hj
    exact (h.current j hj _ ho).symm

theorem Fenced.claim (h : Fenced s) (c : Claim) : Fenced (s.claim c) := by
  rcases claim_cases with ⟨ho,he,hg⟩ | ⟨ho,hg,he⟩
  · exact h.keep hg he fun j hj => ho ▸ hj
  · have hle : s.epoch ≤ (s.claim c).epoch := by omega
    refine ⟨?_,?_,?_⟩
    · intro i e hi
      rw [hg] at hi
      rcases List.mem_cons.mp hi with hi | hi
      · cases hi
        exact le_refl _
      · exact (h.bounded i e hi).trans hle
    · intro i hi j hj
      rw [ho] at hj
      cases hj
      rw [hg] at hi
      rcases List.mem_cons.mp hi with hi | hi
      · cases hi
        rfl
      · exact (h.regrant he hi).symm
    · intro i j e hi hj
      rw [hg] at hi hj
      rcases List.mem_cons.mp hi with hi | hi
      · cases hi
        rcases List.mem_cons.mp hj with hj | hj
        · cases hj
          rfl
        · exact (h.regrant he hj).symm
      · rcases List.mem_cons.mp hj with hj | hj
        · cases hj
          exact h.regrant he hi
        · exact h.unique i j e hi hj

theorem step_fenced (h : Fenced s) (hs : step s e = some t) : Fenced t := by
  cases step_cases hs with
  | claim c => exact h.claim c
  | skip => exact h
  | read _ _ => exact h.keep rfl rfl fun _ hj => hj
  | @commit k w _ =>
    refine h.keep rfl (commit_epoch) fun j hj => ?_
    rcases commit_owner with ho | ho
    · rwa [← ho]
    · rw [ho] at hj
      cases hj

theorem run_fenced (h : Run (Steps step) System.start es s) : Fenced s := by
  refine h.invariant (I := Fenced) (fun _ _ _ hi hs => step_fenced hi hs) ⟨?_,?_,?_⟩
  · exact nofun
  · exact nofun
  · exact nofun

/-- No renewal or release but `k` is between its read and its commit. -/
def Quiet (s : System) (k : Option ℕ) : Prop :=
  ∀ q ∈ s.writes.rows, k ≠ some q.1 → q.2.request.pair = none

/-- A lease ends, by a claim of another instance or by a release, only while no
other renewal or release is in progress. -/
def Undisturbed (s : System) : Event → Prop
  | .claim c => (s.claim c).owner ≠ s.owner → Quiet s none
  | .commit k => (s.commit k <$> s.writes.get? k).any (fun t => t.owner ≠ s.owner) = true →
      Quiet s (some k)
  | .read _ _ => True

instance (s : System) (k : Option ℕ) : Decidable (Quiet s k) := by
  unfold Quiet
  infer_instance

instance (s : System) (e : Event) : Decidable (Undisturbed s e) := by
  unfold Undisturbed
  split <;> infer_instance

/-- Whoever is about to commit still owns the row. -/
def Current (s : System) : Prop :=
  ∀ k w, s.writes.get? k = some w → ∀ i e, w.request.pair = some (i,e) →
    s.owner = some i ∧ s.epoch = e

theorem accepts_pair (h : q.accepts r = true) {i : String} {e : ℕ} (hp : q.pair = some (i,e)) :
    r.ownerInstanceId = some i ∧ r.ownerEpoch = e := by
  cases q with
  | renew w | release w =>
    cases hp
    exact ownedBy_iff.mp h
  | drain _ _ => cases hp

theorem step_current (h : Current s) (hu : Undisturbed s e) (hs : step s e = some t) :
    Current t := by
  cases step_cases hs with
  | claim c =>
    intro k w hw i e hp
    by_cases ho : (s.claim c).owner = s.owner
    · obtain ⟨howner,hepoch⟩ := h k w hw i e hp
      refine ⟨ho.trans howner,?_⟩
      rcases claim_cases with ⟨_,he,_⟩ | ⟨hc,_,⟨_,hother⟩ | ⟨he,_⟩⟩
      · exact he.trans hepoch
      · exact absurd (ho.symm.trans hc) hother
      · exact he.trans hepoch
    · have hnone := hu ho (k,w) (Dict.get?_eq_some.mp hw) (by simp)
      rw [hp] at hnone
      cases hnone
  | skip => exact h
  | @read k q r hrow hq =>
    intro j w hw i e hp
    simp only [Dict.get?_set] at hw
    split_ifs at hw
    · cases hw
      obtain ⟨howner,hepoch⟩ := accepts_pair hq hp
      exact ⟨by simp [System.owner,hrow,howner],by simp [System.epoch,hrow,hepoch]⟩
    · exact h j w hw i e hp
  | @commit k w hw =>
    intro j v hv i e hp
    simp only [System.commit,Dict.get?_pop] at hv
    split_ifs at hv with hj
    obtain ⟨howner,hepoch⟩ := h j v hv i e hp
    refine ⟨?_,(commit_epoch).trans hepoch⟩
    by_contra hne
    have hchanged : (s.commit k w).owner ≠ s.owner := fun he => hne (he.trans howner)
    have hquiet := hu (by simpa [hw] using hchanged) (j,v) (Dict.get?_eq_some.mp hv)
      (by simpa using Ne.symm hj)
    rw [hp] at hquiet
    cases hquiet

theorem run_current (h : Run (restrict (Steps step) Undisturbed) System.start es s) : Current s :=
  h.invariant (I := Current) (fun _ _ _ hi hs => step_current hi hs.1 hs.2)
    fun _ _ hw => Dict.not_mem_empty hw

/-- Epochs fence the leases in every run; when leases end undisturbed, a renewal
or release writes only to a row that still has its owner and epoch. -/
theorem leases_fenced {s : System} {es : List Event} (h : Run (Steps step) System.start es s) :
    (∀ fs t, Run (Steps step) s fs t → s.epoch ≤ t.epoch) ∧
      (∀ e t, step s e = some t → ∀ j, t.owner = some j → s.owner ≠ some j →
        s.epoch < t.epoch) ∧
      (∀ i j e, (i,e) ∈ s.grants → (j,e) ∈ s.grants → i = j) ∧
      (Run (restrict (Steps step) Undisturbed) System.start es s →
        ∀ k w t i e, s.writes.get? k = some w → w.request.pair = some (i,e) →
          step s (.commit k) = some t → t.row ≠ s.row → s.owner = some i ∧ s.epoch = e) :=
  ⟨fun _ _ hrun => run_epoch_le hrun,fun _ _ hs => (step_advances hs).2,(run_fenced h).unique,
    fun hrun k w _ i e hw hp _ _ => run_current hrun k w hw i e hp⟩

def plainClaim (instanceId : String) : Claim :=
  ⟨instanceId,0,60000000,some "account",none,none,none,none,true⟩

/-- Instance `a` releases its lease, and `b` claims the row afterwards and renews. -/
def handoverEvents : List Event :=
  [.claim (plainClaim "a"),.read 0 (.release ⟨"a",1,5,true⟩),.commit 0,.claim (plainClaim "b"),
    .read 1 (.renew ⟨"b",2,9,60000000,some "t",none,none,none,none⟩)]

theorem handover_writes_own_lease :
    ∃ s t, Run (restrict (Steps step) Undisturbed) System.start handoverEvents s ∧
      s.grants = [("b",2),("a",1)] ∧ step s (.commit 1) = some t ∧ t.row ≠ s.row ∧
      s.owner = some "b" ∧ s.epoch = 2 := by
  obtain ⟨s,hrun,hgrants,hpair,hwrite⟩ := exists_run_of_exec (f := step) (G := Undisturbed)
    (s := System.start) (l := handoverEvents)
    (p := fun s => s.grants = [("b",2),("a",1)] ∧
      (s.writes.get? 1).bind (fun w => w.request.pair) = some ("b",2) ∧
      (step s (.commit 1)).any fun t => t.row ≠ s.row) (by decide +kernel)
  obtain ⟨w,hw,hp⟩ := Option.bind_eq_some_iff.mp hpair
  obtain ⟨t,ht,hne⟩ := (Option.any_eq_true _ _).mp hwrite
  have hne' : t.row ≠ s.row := by simpa using hne
  exact ⟨s,t,hrun,hgrants,ht,hne',(leases_fenced hrun.erase).2.2.2 hrun 1 w t "b" 2 hw hp ht hne'⟩

/-- Instance `b` takes the row over after `a` has read it for its release. -/
def takeoverEvents : List Event :=
  [.claim (plainClaim "a"),.read 0 (.release ⟨"a",1,5,false⟩),.claim (plainClaim "b")]

theorem stale_release_drops_new_owner : ∃ s t, Run (Steps step) System.start takeoverEvents s ∧
      (s.writes.get? 0).bind (fun w => w.request.pair) = some ("a",1) ∧
      s.owner = some "b" ∧ s.epoch = 2 ∧ step s (.commit 0) = some t ∧
      t.owner = none ∧ t.row.map Record.state = some .closed := by
  obtain ⟨s,hrun,hpair,howner,hepoch,hwrite⟩ := exists_steps_of_exec (f := step)
    (s := System.start) (l := takeoverEvents)
    (p := fun s => (s.writes.get? 0).bind (fun w => w.request.pair) = some ("a",1) ∧
      s.owner = some "b" ∧ s.epoch = 2 ∧ (step s (.commit 0)).any fun t =>
        t.owner = none ∧ t.row.map Record.state = some .closed) (by decide +kernel)
  obtain ⟨t,ht,hdone⟩ := (Option.any_eq_true _ _).mp hwrite
  simp only [decide_eq_true_eq] at hdone
  exact ⟨s,t,hrun,hpair,howner,hepoch,ht,hdone⟩

end CodexLb.DurableBridge.Leases
