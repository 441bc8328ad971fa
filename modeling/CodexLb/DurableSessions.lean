import Mathlib.Data.String.Basic

/-!
# Rows of durable bridge sessions

What the durable repository writes into a session row. Times are microseconds.
`claimSession` decides and writes under one row lock. `renew_session` and
`release_session` read the row, check its owner and epoch, change attributes of
the object they read, and commit; the commit updates the row by primary key and
writes the changed columns only, whatever the row holds by then. `flush` is that
commit.

The key columns, `created_at` and `updated_at` of a session row are left out:
nothing modelled reads them.
-/
namespace CodexLb.DurableBridge

inductive SessionState where
  | active
  | draining
  | closed
  deriving DecidableEq, Repr

structure Record where
  ownerInstanceId : Option String
  ownerEpoch : ℕ
  leaseExpiresAt : Option ℤ
  state : SessionState
  accountId : Option String
  model : Option String
  serviceTier : Option String
  latestTurnState : Option String
  latestResponseId : Option String
  latestInputItemCount : Option ℤ
  latestInputFullFingerprint : Option String
  lastSeenAt : ℤ
  closedAt : Option ℤ
  deriving DecidableEq, Repr

def leaseEnd (now leaseTtl : ℤ) : ℤ := now+max 1000000 leaseTtl

structure Claim where
  instanceId : String
  now : ℤ
  leaseTtl : ℤ
  accountId : Option String
  model : Option String
  serviceTier : Option String
  latestTurnState : Option String
  latestResponseId : Option String
  allowTakeover : Bool
  deriving DecidableEq, Repr

namespace Claim
variable (c : Claim) (r : Record)

def create : Record where
  ownerInstanceId := some c.instanceId
  ownerEpoch := 1
  leaseExpiresAt := some (leaseEnd c.now c.leaseTtl)
  state := .active
  accountId := c.accountId
  model := c.model
  serviceTier := c.serviceTier
  latestTurnState := c.latestTurnState
  latestResponseId := c.latestResponseId
  latestInputItemCount := none
  latestInputFullFingerprint := none
  lastSeenAt := c.now
  closedAt := none

def ownerChanged : Bool := r.ownerInstanceId ≠ some c.instanceId

def accountChanged : Bool := r.accountId ≠ c.accountId

def leaseExpired : Bool := r.leaseExpiresAt.all (· ≤ c.now)

/-- The owner's lease holds and nothing allows another instance in. -/
def refused : Bool :=
  c.ownerChanged r && !c.allowTakeover && !c.leaseExpired r && r.state = .active

/-- The claim brings its own value for this column, or the column may not keep
the old one. -/
def replaces (given : Option String) : Bool :=
  c.accountChanged r || given.isSome || (c.ownerChanged r && r.state = .closed)

def grant : Record where
  ownerInstanceId := some c.instanceId
  ownerEpoch := if c.ownerChanged r then r.ownerEpoch+1 else r.ownerEpoch
  leaseExpiresAt := some (leaseEnd c.now c.leaseTtl)
  state := .active
  accountId := c.accountId
  model := c.model
  serviceTier := c.serviceTier
  latestTurnState := if c.replaces r c.latestTurnState then c.latestTurnState
    else r.latestTurnState
  latestResponseId := if c.replaces r c.latestResponseId then c.latestResponseId
    else r.latestResponseId
  latestInputItemCount := if c.replaces r c.latestResponseId then none
    else r.latestInputItemCount
  latestInputFullFingerprint := if c.replaces r c.latestResponseId then none
    else r.latestInputFullFingerprint
  lastSeenAt := c.now
  closedAt := none

end Claim

/-- The row after `claim_session`, which is also what the call returns. -/
def claimSession (c : Claim) : Option Record → Record
  | none => c.create
  | some r => if c.refused r then r else c.grant r

structure Renewal where
  instanceId : String
  ownerEpoch : ℕ
  now : ℤ
  leaseTtl : ℤ
  latestTurnState : Option String
  latestResponseId : Option String
  latestInputItemCount : Option ℤ
  latestInputFullFingerprint : Option String
  state : Option SessionState
  deriving DecidableEq, Repr

def Record.ownedBy (r : Record) (instanceId : String) (ownerEpoch : ℕ) : Bool :=
  r.ownerInstanceId = some instanceId && r.ownerEpoch = ownerEpoch

namespace Renewal
variable (w : Renewal) (r : Record)

def hasInput : Bool := w.latestInputItemCount.isSome && w.latestInputFullFingerprint.isSome

/-- The assignments of `renew_session` once the owner check has passed. -/
def apply : Record := {r with
  leaseExpiresAt := some (leaseEnd w.now w.leaseTtl)
  lastSeenAt := w.now
  latestTurnState := w.latestTurnState.or r.latestTurnState
  latestResponseId := w.latestResponseId.or r.latestResponseId
  latestInputItemCount := if w.hasInput then w.latestInputItemCount
    else if w.latestResponseId.isSome then none else r.latestInputItemCount
  latestInputFullFingerprint := if w.hasInput then w.latestInputFullFingerprint
    else if w.latestResponseId.isSome then none else r.latestInputFullFingerprint
  state := w.state.getD r.state}

end Renewal

structure Release where
  instanceId : String
  ownerEpoch : ℕ
  now : ℤ
  draining : Bool
  deriving DecidableEq, Repr

def Release.apply (w : Release) (r : Record) : Record := {r with
  ownerInstanceId := none
  leaseExpiresAt := some w.now
  lastSeenAt := w.now
  state := if w.draining then .draining else .closed
  closedAt := if w.draining then none else some w.now}

def markDraining (now : ℤ) (r : Record) : Record := {r with
  state := .draining
  lastSeenAt := now}

/-- One column of a commit: it is written if the object's value has changed
since it was read. -/
def written {V : Type} [DecidableEq V] (read new current : V) : V :=
  if new = read then current else new

def Record.flush (read new current : Record) : Record where
  ownerInstanceId := written read.ownerInstanceId new.ownerInstanceId current.ownerInstanceId
  ownerEpoch := written read.ownerEpoch new.ownerEpoch current.ownerEpoch
  leaseExpiresAt := written read.leaseExpiresAt new.leaseExpiresAt current.leaseExpiresAt
  state := written read.state new.state current.state
  accountId := written read.accountId new.accountId current.accountId
  model := written read.model new.model current.model
  serviceTier := written read.serviceTier new.serviceTier current.serviceTier
  latestTurnState := written read.latestTurnState new.latestTurnState current.latestTurnState
  latestResponseId := written read.latestResponseId new.latestResponseId current.latestResponseId
  latestInputItemCount :=
    written read.latestInputItemCount new.latestInputItemCount current.latestInputItemCount
  latestInputFullFingerprint := written read.latestInputFullFingerprint
    new.latestInputFullFingerprint current.latestInputFullFingerprint
  lastSeenAt := written read.lastSeenAt new.lastSeenAt current.lastSeenAt
  closedAt := written read.closedAt new.closedAt current.closedAt

variable {V : Type}

theorem written_self [DecidableEq V] (read current : V) :
    written read read current = current := if_pos rfl

theorem written_read [DecidableEq V] (read new : V) : written read new read = new := by
  unfold written
  split_ifs with h
  · exact h.symm
  · rfl

theorem flush_read (read new : Record) : read.flush new read = new := by
  simp only [Record.flush,written_read]

theorem ownedBy_iff {r : Record} {i : String} {e : ℕ} :
    r.ownedBy i e = true ↔ r.ownerInstanceId = some i ∧ r.ownerEpoch = e := by
  simp [Record.ownedBy]

theorem claimSession_cases (c : Claim) (row : Option Record) :
    (row = some (claimSession c row) ∧ (claimSession c row).ownerInstanceId ≠ some c.instanceId) ∨
      ((claimSession c row).ownerInstanceId = some c.instanceId ∧
        (((claimSession c row).ownerEpoch = row.elim 0 Record.ownerEpoch+1 ∧
            row.bind Record.ownerInstanceId ≠ some c.instanceId) ∨
          ((claimSession c row).ownerEpoch = row.elim 0 Record.ownerEpoch ∧
            row.bind Record.ownerInstanceId = some c.instanceId))) := by
  cases row with
  | none => exact .inr ⟨rfl,.inl ⟨rfl,by simp⟩⟩
  | some r =>
    simp only [claimSession]
    split_ifs with hr
    · refine .inl ⟨rfl,?_⟩
      simp only [Claim.refused,Claim.ownerChanged,Bool.and_eq_true,decide_eq_true_eq] at hr
      exact hr.1.1.1
    · refine .inr ⟨rfl,?_⟩
      by_cases ho : c.ownerChanged r = true
      · refine .inl ⟨by simp [Claim.grant,ho],?_⟩
        simpa [Claim.ownerChanged] using ho
      · refine .inr ⟨by simp [Claim.grant,ho],?_⟩
        simpa [Claim.ownerChanged] using ho

end CodexLb.DurableBridge
