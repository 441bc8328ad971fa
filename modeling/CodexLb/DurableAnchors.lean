import CodexLb.DurableLeases

/-!
# The continuity anchor of a durable session row

The response id of a row, its input count and its input fingerprint form one value,
passed by one registration and valid for the account of the row. They are three
columns, and a commit writes those that differ from what the call has read. So a
registration that repeats the count it has read leaves the count of another one that
was committed in between.

Beside the leases stands the list of anchors that committed registrations passed,
each with the account of the row the registration read.
-/
namespace CodexLb.DurableBridge.Leases
open Runs

structure Anchor where
  accountId : Option String
  latestResponseId : Option String
  latestInputItemCount : Option ℤ
  latestInputFullFingerprint : Option String
  deriving DecidableEq

def anchorOf (r : Record) : Anchor :=
  ⟨r.accountId,r.latestResponseId,r.latestInputItemCount,r.latestInputFullFingerprint⟩

def Write.anchors (w : Write) : List Anchor :=
  match w.request with
  | .renew x => if x.latestResponseId.isSome && x.hasInput then
      [⟨w.read.accountId,x.latestResponseId,x.latestInputItemCount,x.latestInputFullFingerprint⟩]
    else []
  | _ => []

/-- A renewal with an input has a response id, and one with a response id finds the
anchor it has read. -/
def Write.steady (row : Option Record) (w : Write) : Bool :=
  match w.request with
  | .renew x => if x.latestResponseId.isSome then row.map anchorOf = some (anchorOf w.read)
    else !x.hasInput
  | _ => true

structure Logged where
  system : System
  passed : List Anchor

namespace Logged

def start : Logged := ⟨.start,[]⟩

def passes (s : Logged) : Event → List Anchor
  | .commit k => (s.system.writes.get? k).elim [] Write.anchors
  | _ => []

def step (s : Logged) (e : Event) : Option Logged :=
  (Leases.step s.system e).map fun t => ⟨t,s.passed++s.passes e⟩

def Steady (s : Logged) : Event → Prop
  | .commit k => (s.system.writes.get? k).all (Write.steady s.system.row) = true
  | _ => True

instance (s : Logged) (e : Event) : Decidable (Steady s e) :=
  match e with
  | .commit _ => inferInstanceAs (Decidable (_ = true))
  | .claim _ | .read _ _ => inferInstanceAs (Decidable True)

def Anchored (passed : List Anchor) (a : Anchor) : Prop :=
  (a.latestInputItemCount = none ∧ a.latestInputFullFingerprint = none) ∨
    (a.latestInputItemCount.isSome ∧ a.latestInputFullFingerprint.isSome) ∧ a ∈ passed

instance (passed : List Anchor) (a : Anchor) : Decidable (Anchored passed a) :=
  inferInstanceAs (Decidable (_ ∨ _))

variable {passed : List Anchor} {r read new cur : Record} {s t : Logged} {e : Event}

theorem anchored_claim {c : Claim} (h : Anchored passed (anchorOf r)) :
    Anchored passed (anchorOf (claimSession c (some r))) := by
  simp only [claimSession]
  split_ifs
  · exact h
  · by_cases hr : c.replaces r c.latestResponseId = true
    · exact .inl ⟨if_pos hr,if_pos hr⟩
    · have haccount : r.accountId = c.accountId := by
        simp only [Claim.replaces,Claim.accountChanged,Bool.or_eq_true,not_or] at hr
        simpa using hr.1.1
      simp only [anchorOf,Claim.grant,if_neg hr,← haccount]
      exact h

/-- A commit that changes nothing of the anchor it has read leaves the row's. -/
theorem anchorOf_flush (h : anchorOf new = anchorOf read) :
    anchorOf (read.flush new cur) = anchorOf cur := by
  simp only [anchorOf,Anchor.mk.injEq] at h
  simp only [anchorOf,Record.flush,h,written_self]

theorem anchorOf_flush_read (h : anchorOf cur = anchorOf read) :
    anchorOf (read.flush new cur) = anchorOf new := by
  simp only [anchorOf,Anchor.mk.injEq] at h
  simp only [anchorOf,Record.flush,h,written_read]

theorem anchored_commit {w : Write} (h : Anchored passed (anchorOf cur))
    (hs : w.steady (some cur) = true) :
    Anchored (passed++w.anchors) (anchorOf (w.read.flush (w.request.apply w.read) cur)) := by
  have hkeep (hq : anchorOf (w.request.apply w.read) = anchorOf w.read) : Anchored
      (passed++w.anchors) (anchorOf (w.read.flush (w.request.apply w.read) cur)) := by
    rw [anchorOf_flush hq]
    exact h.imp_right (And.imp_right (List.mem_append_left _))
  obtain ⟨q,read⟩ := w
  cases q with
  | release x | drain i now => exact hkeep rfl
  | renew x =>
    simp only [Write.steady] at hs
    split_ifs at hs with hid
    · rw [anchorOf_flush_read (by simpa using hs)]
      cases hi : x.hasInput with
      | false => exact .inl (by simp [Request.apply,Renewal.apply,hi,hid,anchorOf])
      | true =>
        obtain ⟨id,hid⟩ := Option.isSome_iff_exists.mp hid
        have hboth := hi
        rw [Renewal.hasInput,Bool.and_eq_true] at hboth
        refine .inr ⟨?_,List.mem_append_right _
          (by simp [Write.anchors,anchorOf,Request.apply,Renewal.apply,hi,hid])⟩
        simpa [anchorOf,Request.apply,Renewal.apply,hi,hid] using hboth
    · refine hkeep ?_
      simp only [Bool.not_eq_true,Option.isSome_eq_false_iff,Option.isNone_iff_eq_none,
        Bool.not_eq_true'] at hs hid
      simp [anchorOf,Request.apply,Renewal.apply,hs,hid]

theorem step_anchored (h : ∀ r ∈ s.system.row, Anchored s.passed (anchorOf r)) (hg : Steady s e)
    (hs : s.step e = some t) : ∀ r ∈ t.system.row, Anchored t.passed (anchorOf r) := by
  obtain ⟨u,hu,rfl⟩ := Option.map_eq_some_iff.mp hs
  have hpast : ∀ r ∈ s.system.row, Anchored (s.passed++s.passes e) (anchorOf r) :=
    fun r hr => (h r hr).imp_right (And.imp_right (List.mem_append_left _))
  intro r hr
  cases step_cases hu with
  | claim c =>
    cases hr
    cases hrow : s.system.row with
    | none => exact .inl ⟨rfl,rfl⟩
    | some r => exact anchored_claim (hpast r hrow)
  | skip | read _ _ => exact hpast r hr
  | @commit k w hw =>
    obtain ⟨cur,hcur,rfl⟩ := Option.map_eq_some_iff.mp hr
    simp only [Steady,hw,Option.all_some,hcur] at hg
    simp only [passes,hw,Option.elim_some]
    exact anchored_commit (h cur hcur) hg

end Logged

/-- When every registration is committed on the anchor it has read, the anchor of the
row is empty or was passed as a whole, under the account of the row. -/
theorem anchors_whole {es : List Event} {s : Logged}
    (h : Run (restrict (Steps Logged.step) Logged.Steady) .start es s) :
    ∀ r ∈ s.system.row, Logged.Anchored s.passed (anchorOf r) :=
  h.invariant (I := fun s => ∀ r ∈ s.system.row, Logged.Anchored s.passed (anchorOf r))
    (fun _ _ _ hi hs => Logged.step_anchored hi hs.1 hs.2) fun _ hr => (nomatch hr)

def registration (id : String) (n : ℤ) (fingerprint : String) : Request :=
  .renew ⟨"a",1,9,60000000,none,some id,some n,some fingerprint,none⟩

def registeredEvents : List Event :=
  [.claim (plainClaim "a"),.read 0 (registration "r1" 3 "f1"),.commit 0,
    .read 1 (registration "r2" 5 "f2"),.commit 1]

theorem registered_whole : ∃ s, Run (restrict (Steps Logged.step) Logged.Steady) .start
    registeredEvents s ∧ ∃ r, s.system.row = some r ∧ r.latestInputItemCount = some 5 ∧
      Logged.Anchored s.passed (anchorOf r) := by
  refine exists_run_with (p := fun s => s.system.row.any fun r => r.latestInputItemCount = some 5)
    (fun s hrun hrow => ?_) (by decide +kernel)
  obtain ⟨r,hr,hcount⟩ := (Option.any_eq_true _ _).mp hrow
  exact ⟨r,hr,of_decide_eq_true hcount,anchors_whole hrun r hr⟩

/-- The second of two registrations is committed before the first, which passes the
count it has read. -/
def crossedEvents : List Event :=
  [.claim (plainClaim "a"),.read 0 (registration "r1" 3 "f1"),.commit 0,
    .read 1 (registration "r2" 3 "f2"),.read 2 (registration "r3" 5 "f3"),.commit 2,.commit 1]

theorem crossed_anchor : ∃ s, Run (Steps Logged.step) .start crossedEvents s ∧
    ∃ r, s.system.row = some r ∧ anchorOf r = ⟨some "account",some "r2",some 5,some "f2"⟩ ∧
      ¬ Logged.Anchored s.passed (anchorOf r) := by
  refine exists_steps_with (p := fun s => s.system.row.any fun r =>
    anchorOf r = ⟨some "account",some "r2",some 5,some "f2"⟩ ∧
      ¬ Logged.Anchored s.passed (anchorOf r)) (fun s _ hrow => ?_) (by decide +kernel)
  obtain ⟨r,hr,hanchor⟩ := (Option.any_eq_true _ _).mp hrow
  exact ⟨r,hr,of_decide_eq_true hanchor⟩

end CodexLb.DurableBridge.Leases
