import CodexLb.DurableLeases

/-!
# Session objects and the epochs they hold

The local session objects of any number of instances and the durable rows they
claim. An object keeps the epoch that its claim returned and passes it to every
renewal, registration and release. But a claim that finds the row owned by its own
instance keeps the epoch, so two objects of one instance can hold the same; and a
refresh copies the epoch of whatever row it has read, whoever owns it.

A claim is one step. The other calls read the row in one step and commit in a later
one, and a refresh reads the row once more after its commit. An evicted object is
one that is closed some time later; which objects the registry holds makes no
difference here. `claimed` lists the epochs that the claims of an object have
returned; nothing in the program looks at it.
-/
namespace CodexLb.DurableBridge.Fencing
open Runs
open Leases (Request)

structure Session where
  instanceId : String
  key : String
  ownerEpoch : Option ℕ
  closed : Bool
  claimed : List ℕ
  deriving DecidableEq, Repr

inductive Call where
  | refresh (w : Renewal)
  | register (w : Renewal)
  | release (w : Release)
  deriving DecidableEq, Repr

namespace Call

def request (instanceId : String) (epoch : ℕ) : Call → Request
  | .refresh w => .renew {w with instanceId := instanceId,ownerEpoch := epoch}
  | .register w => .renew {w with instanceId := instanceId,ownerEpoch := epoch}
  | .release w => .release {w with instanceId := instanceId,ownerEpoch := epoch}

def isRefresh : Call → Bool
  | .refresh _ => true
  | .register _ | .release _ => false

def isRelease : Call → Bool
  | .release _ => true
  | .refresh _ | .register _ => false

end Call

structure Pending where
  object : ℕ
  call : Call
  epoch : ℕ
  read : Record
  committed : Bool
  deriving DecidableEq, Repr

structure System where
  rows : Dict String Record
  objects : Dict ℕ Session
  writes : Dict ℕ Pending

inductive Event where
  | create (k : ℕ) (instanceId key : String)
  | claim (k : ℕ) (c : Claim)
  | close (k : ℕ)
  | issue (w k : ℕ) (call : Call)
  | commit (w : ℕ)
  | reread (w : ℕ)
  deriving DecidableEq, Repr

namespace System
variable (s : System)

def start : System := ⟨Dict.empty,Dict.empty,Dict.empty⟩

def claim (k : ℕ) (x : Session) (c : Claim) : System :=
  let row := claimSession {c with instanceId := x.instanceId} (s.rows.get? x.key)
  { s with
    rows := s.rows.set x.key row
    objects := if row.ownerInstanceId = some x.instanceId then
        s.objects.set k {x with
          ownerEpoch := some row.ownerEpoch
          claimed := row.ownerEpoch::x.claimed}
      else s.objects }

/-- `session.durable_owner_epoch = lookup.owner_epoch` in a refresh. -/
def copyEpoch (k : ℕ) (x : Session) (r : Record) : System :=
  {s with objects := s.objects.set k {x with ownerEpoch := some r.ownerEpoch}}

def issue (w k : ℕ) (x : Session) (epoch : ℕ) (call : Call) : System :=
  match s.rows.get? x.key with
  | none => s
  | some r =>
    if (call.request x.instanceId epoch).accepts r then
      {s with writes := s.writes.set w ⟨k,call,epoch,r,false⟩}
    else if call.isRefresh then s.copyEpoch k x r else s

def commit (w : ℕ) (p : Pending) (x : Session) : System :=
  { s with
    rows := match s.rows.get? x.key with
      | none => s.rows
      | some current => s.rows.set x.key
          (p.read.flush ((p.call.request x.instanceId p.epoch).apply p.read) current)
    writes := if p.call.isRefresh then s.writes.set w {p with committed := true}
      else s.writes.pop w }

end System

def step (s : System) : Event → Option System
  | .create k instanceId key =>
    if (s.objects.get? k).isSome then none
    else some {s with objects := s.objects.set k ⟨instanceId,key,none,false,[]⟩}
  | .claim k c => (s.objects.get? k).map fun x => s.claim k x c
  | .close k =>
    (s.objects.get? k).map fun x => {s with objects := s.objects.set k {x with closed := true}}
  | .issue w k call => do
      let x ← s.objects.get? k
      let epoch ← x.ownerEpoch
      if (s.writes.get? w).isSome || (call.isRelease && !x.closed) then none
      else some (s.issue w k x epoch call)
  | .commit w => do
      let p ← s.writes.get? w
      let x ← s.objects.get? p.object
      if p.committed then none else some (s.commit w p x)
  | .reread w => do
      let p ← s.writes.get? w
      let x ← s.objects.get? p.object
      let r ← s.rows.get? x.key
      if p.committed then some {s.copyEpoch p.object x r with writes := s.writes.pop w} else none

/-- The object is live, holds an epoch that its own claim has returned, and the row
still has this owner and epoch. -/
def System.inForce (s : System) (y : Session) : Bool :=
  !y.closed && y.ownerEpoch.any fun e => decide (e ∈ y.claimed) &&
    (s.rows.get? y.key).any fun r => r.ownedBy y.instanceId e

/-- The release of one object leaves the rows that others hold alone, and every call
is issued with an epoch that a claim of its object has returned. -/
structure PerClaim (s : System) (e : Event) (t : System) : Prop where
  release : ∀ w p, e = .commit w → s.writes.get? w = some p → p.call.isRelease = true →
    ∀ j y, s.objects.get? j = some y → j ≠ p.object → s.inForce y = true →
      t.rows.get? y.key = s.rows.get? y.key
  issued : ∀ w k call x epoch, e = .issue w k call → s.objects.get? k = some x →
    x.ownerEpoch = some epoch → epoch ∈ x.claimed

/-- A claim does not find the row under an epoch of its own instance that another
object has been granted; a refresh reads rows that have the epoch of its object; and a
release commits while the row still has its owner and epoch. -/
def careful (s : System) : Event → Bool
  | .create _ _ _ | .close _ => true
  | .claim k _ => (s.objects.get? k).all fun x => (s.rows.get? x.key).all fun r =>
    r.ownerInstanceId ≠ some x.instanceId ||
      s.objects.rows.all fun q => q.1 = k || q.2.key ≠ x.key || r.ownerEpoch ∉ q.2.claimed
  | .issue _ k call => !call.isRefresh || (s.objects.get? k).all fun x =>
    (s.rows.get? x.key).all fun r => x.ownerEpoch = some r.ownerEpoch
  | .commit w => (s.writes.get? w).all fun p => !p.call.isRelease ||
      (s.objects.get? p.object).all fun x => (s.rows.get? x.key).all fun r =>
        r.ownedBy x.instanceId p.epoch
  | .reread w => (s.writes.get? w).all fun p => (s.objects.get? p.object).all fun x =>
    (s.rows.get? x.key).all fun r => x.ownerEpoch = some r.ownerEpoch

/-- An object holds an epoch of its own claims, no row has an epoch below one that was
granted on it, no epoch of a row was granted to two objects, and calls under way have
an epoch of their object's claims. -/
structure Sound (s : System) : Prop where
  own : ∀ k x e, s.objects.get? k = some x → x.ownerEpoch = some e → e ∈ x.claimed
  bounded : ∀ k x e, s.objects.get? k = some x → e ∈ x.claimed →
    ∃ r, s.rows.get? x.key = some r ∧ e ≤ r.ownerEpoch
  apart : ∀ j k x y e, s.objects.get? j = some x → s.objects.get? k = some y → x.key = y.key →
    e ∈ x.claimed → e ∈ y.claimed → j = k
  issued : ∀ w p, s.writes.get? w = some p →
    ∃ x, s.objects.get? p.object = some x ∧ p.epoch ∈ x.claimed

section
variable {s : System} {k : ℕ} {x : Session}

variable (h : Sound s)
include h

theorem Sound.withRows {rows : Dict String Record}
    (hrows : ∀ key r, s.rows.get? key = some r →
      ∃ u, rows.get? key = some u ∧ r.ownerEpoch ≤ u.ownerEpoch) : Sound {s with rows := rows} where
  own := h.own
  bounded := by
    intro k x e hx he
    obtain ⟨r,hr,hle⟩ := h.bounded k x e hx he
    obtain ⟨u,hu,hru⟩ := hrows x.key r hr
    exact ⟨u,hu,hle.trans hru⟩
  apart := h.apart
  issued := h.issued

variable {u : Session}

/-- A new or changed object: its claims are kept, bounded and no others'. -/
theorem Sound.set (hkeep : ∀ x, s.objects.get? k = some x → x.claimed ⊆ u.claimed)
    (hown : ∀ e, u.ownerEpoch = some e → e ∈ u.claimed)
    (hbounded : ∀ e ∈ u.claimed, ∃ r, s.rows.get? u.key = some r ∧ e ≤ r.ownerEpoch)
    (hapart : ∀ j y e, s.objects.get? j = some y → j ≠ k → y.key = u.key → e ∈ u.claimed → e ∉
      y.claimed) : Sound {s with objects := s.objects.set k u} := by
  have hcases : ∀ j y, (s.objects.set k u).get? j = some y →
      (j = k ∧ y = u) ∨ (j ≠ k ∧ s.objects.get? j = some y) := by
    intro j y hy
    rw [Dict.get?_set] at hy
    split_ifs at hy with hj
    · cases hy
      exact .inl ⟨hj,rfl⟩
    · exact .inr ⟨hj,hy⟩
  refine ⟨?_,?_,?_,?_⟩
  · intro j y e hy he
    rcases hcases j y hy with ⟨rfl,rfl⟩ | ⟨_,hold⟩
    · exact hown e he
    · exact h.own j y e hold he
  · intro j y e hy he
    rcases hcases j y hy with ⟨rfl,rfl⟩ | ⟨_,hold⟩
    · exact hbounded e he
    · exact h.bounded j y e hold he
  · intro i j y z e hy hz hsame hey hez
    rcases hcases i y hy with ⟨rfl,rfl⟩ | ⟨hi,holdy⟩
    · rcases hcases j z hz with ⟨rfl,_⟩ | ⟨hj,holdz⟩
      · rfl
      · exact absurd hez (hapart j z e holdz hj hsame.symm hey)
    · rcases hcases j z hz with ⟨rfl,rfl⟩ | ⟨_,holdz⟩
      · exact absurd hey (hapart i y e holdy hi hsame hez)
      · exact h.apart i j y z e holdy holdz hsame hey hez
  · intro w p hp
    obtain ⟨y,hy,he⟩ := h.issued w p hp
    rw [Dict.get?_set]
    split_ifs with hj
    · exact ⟨u,rfl,hkeep y (hj ▸ hy) he⟩
    · exact ⟨y,hy,he⟩

theorem Sound.withObject (hx : s.objects.get? k = some x) (hkey : u.key = x.key)
    (hclaimed : u.claimed = x.claimed) (hown : ∀ e, u.ownerEpoch = some e → e ∈ x.claimed) :
    Sound {s with objects := s.objects.set k u} := by
  refine h.set ?_ ?_ ?_ ?_
  · intro y hy
    rw [hx] at hy
    cases hy
    exact hclaimed.symm ▸ List.Subset.refl _
  · exact hclaimed.symm ▸ hown
  · rw [hclaimed,hkey]
    exact fun e he => h.bounded k x e hx he
  · intro j y e hy hj hsame he hother
    exact hj (h.apart j k y x e hy hx (hsame.trans hkey) hother (hclaimed ▸ he))

theorem Sound.withWrites {writes : Dict ℕ Pending}
    (hwrites : ∀ w p, writes.get? w = some p →
      ∃ x, s.objects.get? p.object = some x ∧ p.epoch ∈ x.claimed) :
    Sound {s with writes := writes} := ⟨h.own,h.bounded,h.apart,hwrites⟩

theorem Sound.pop (w : ℕ) : Sound {s with writes := s.writes.pop w} := by
  refine h.withWrites fun v p hp => ?_
  rw [Dict.get?_pop] at hp
  split_ifs at hp
  exact h.issued v p hp

theorem Sound.copyEpoch (hx : s.objects.get? k = some x) {r : Record}
    (hr : x.ownerEpoch = some r.ownerEpoch) : Sound (s.copyEpoch k x r) :=
  h.withObject hx rfl rfl fun _ he => h.own k x _ hx (hr.trans he)

/-- A claim grants an epoch that no other object of the row has been granted. -/
theorem claim_sound (hx : s.objects.get? k = some x) {c : Claim}
    (hc : careful s (.claim k c) = true) : Sound (s.claim k x c) := by
  have hcases := claimSession_cases {c with instanceId := x.instanceId} (s.rows.get? x.key)
  unfold System.claim
  simp only []
  generalize claimSession {c with instanceId := x.instanceId} (s.rows.get? x.key) = row at hcases ⊢
  have hle : ∀ r, s.rows.get? x.key = some r → r.ownerEpoch ≤ row.ownerEpoch := by
    intro r hr
    rw [hr] at hcases
    rcases hcases with ⟨hsame,_⟩ | ⟨_,⟨he,_⟩ | ⟨he,_⟩⟩
    · rw [Option.some.inj hsame]
    · exact he ▸ Nat.le_succ _
    · exact he.ge
  have hrows : Sound {s with rows := s.rows.set x.key row} := by
    refine h.withRows fun key r hr => ?_
    rw [Dict.get?_set]
    split_ifs with hkey
    · exact ⟨row,rfl,hle r (hkey ▸ hr)⟩
    · exact ⟨r,hr,le_rfl⟩
  split_ifs with hgranted
  · have hnew : ∀ j y, s.objects.get? j = some y → j ≠ k → y.key = x.key →
        row.ownerEpoch ∉ y.claimed := by
      intro j y hy hj hkey hold
      obtain ⟨r,hr,hbound⟩ := h.bounded j y _ hy hold
      rw [hkey] at hr
      rw [hr] at hcases
      rcases hcases with ⟨_,hother⟩ | ⟨_,⟨he,_⟩ | ⟨he,howned⟩⟩
      · exact hother hgranted
      · have hgrown : row.ownerEpoch = r.ownerEpoch+1 := he
        omega
      · have hkept : row.ownerEpoch = r.ownerEpoch := he
        have hsame : r.ownerInstanceId = some x.instanceId := howned
        simp only [careful,hx,Option.all_some,hr,hsame,ne_eq,not_true_eq_false,decide_false,
          Bool.false_or,List.all_eq_true,Bool.or_eq_true,decide_eq_true_eq] at hc
        rcases hc (j,y) (Dict.get?_eq_some.mp hy) with (h | h) | h
        · exact hj h
        · exact h hkey
        · exact h (hkept ▸ hold)
    refine hrows.set ?_ ?_ ?_ ?_
    · intro y hy
      cases hx.symm.trans hy
      exact List.subset_cons_self _ _
    · intro e he
      cases he
      exact List.mem_cons_self
    · intro e he
      refine ⟨row,by simp [Dict.get?_set],?_⟩
      rcases List.mem_cons.mp he with rfl | he
      · exact le_rfl
      · obtain ⟨r,hr,hbound⟩ := h.bounded k x e hx he
        exact hbound.trans (hle r hr)
    · intro j y e hy hj hkey he hother
      rcases List.mem_cons.mp he with rfl | he
      · exact hnew j y hy hj hkey hother
      · exact hj (h.apart j k y x e hy hx hkey hother he)
  · exact hrows

theorem commit_sound {w : ℕ} {p : Pending} (hp : s.writes.get? w = some p)
    (x : Session) : Sound (s.commit w p x) := by
  have hrows : Sound {s with rows := (s.commit w p x).rows} := by
    refine h.withRows fun key r hr => ?_
    unfold System.commit
    split
    · exact ⟨r,hr,le_rfl⟩
    · rename_i current hcurrent
      rw [Dict.get?_set]
      split_ifs with hkey
      · refine ⟨_,rfl,?_⟩
        rw [Leases.flush_epoch]
        rw [hkey,hcurrent] at hr
        cases hr
        exact le_rfl
      · exact ⟨r,hr,le_rfl⟩
  unfold System.commit at hrows ⊢
  split_ifs
  · refine hrows.withWrites fun v q hq => ?_
    rw [Dict.get?_set] at hq
    split_ifs at hq
    · cases hq
      exact h.issued w p hp
    · exact h.issued v q hq
  · exact hrows.pop w

omit h

end

variable {s : System}

theorem step_sound {t : System} {e : Event} (h : Sound s) (hc : careful s e = true)
    (hs : step s e = some t) : Sound t := by
  cases e with
  | create k instanceId key =>
    rw [step] at hs
    split_ifs at hs with hsome
    cases hs
    refine h.set (fun x hx => ?_) (by simp) (by simp)
      (by simp)
    rw [hx] at hsome
    exact absurd rfl hsome
  | claim k c =>
    obtain ⟨x,hx,rfl⟩ := Option.map_eq_some_iff.mp hs
    exact claim_sound h hx hc
  | close k =>
    obtain ⟨x,hx,rfl⟩ := Option.map_eq_some_iff.mp hs
    exact h.withObject hx rfl rfl fun e he => h.own k x e hx he
  | issue w k call =>
    obtain ⟨x,hx,hs⟩ := Option.bind_eq_some_iff.mp hs
    obtain ⟨epoch,hepoch,hs⟩ := Option.bind_eq_some_iff.mp hs
    split_ifs at hs
    cases hs
    unfold System.issue
    split
    · exact h
    · rename_i r hr
      split_ifs with haccepts hrefresh
      · refine h.withWrites fun v p hp => ?_
        rw [Dict.get?_set] at hp
        split_ifs at hp
        · cases hp
          exact ⟨x,hx,h.own k x epoch hx hepoch⟩
        · exact h.issued v p hp
      · refine h.copyEpoch hx ?_
        simpa [careful,hrefresh,hx,hr] using hc
      · exact h
  | commit w =>
    obtain ⟨p,hp,hs⟩ := Option.bind_eq_some_iff.mp hs
    obtain ⟨x,hx,hs⟩ := Option.bind_eq_some_iff.mp hs
    split_ifs at hs
    cases hs
    exact commit_sound h hp x
  | reread w =>
    obtain ⟨p,hp,hs⟩ := Option.bind_eq_some_iff.mp hs
    obtain ⟨x,hx,hs⟩ := Option.bind_eq_some_iff.mp hs
    obtain ⟨r,hr,hs⟩ := Option.bind_eq_some_iff.mp hs
    split_ifs at hs
    cases hs
    refine (h.copyEpoch hx ?_).pop w
    simpa [careful,hp,hx,hr] using hc

theorem run_sound {es : List Event}
    (h : Run (restrict (Steps step) fun s e => careful s e = true) System.start es s) : Sound s :=
  h.invariant (I := Sound) (fun _ _ _ hi hs => step_sound hi hs.1 hs.2)
    ⟨fun _ _ _ hx => Dict.not_mem_empty hx,fun _ _ _ hx => Dict.not_mem_empty hx,
      fun _ _ _ _ _ hx => Dict.not_mem_empty hx,fun _ _ hp => Dict.not_mem_empty hp⟩

theorem commit_rows {w : ℕ} {p : Pending} {x : Session} {key : String} (h : key ≠ x.key) :
    (s.commit w p x).rows.get? key = s.rows.get? key := by
  unfold System.commit
  split
  · rfl
  · rw [Dict.get?_set,if_neg h]

/-- In every run whose steps are careful, every careful step respects the claims of the
other objects and issues calls with epochs of its own. -/
theorem claims_fenced {s t : System} {es : List Event} {e : Event}
    (h : Run (restrict (Steps step) fun s e => careful s e = true) System.start es s)
    (hc : careful s e = true) (hs : step s e = some t) : PerClaim s e t := by
  have hsound := run_sound h
  refine ⟨?_,fun w k call x epoch _ hx hepoch => hsound.own k x epoch hx hepoch⟩
  rintro w p rfl hp hrelease j y hy hj hforce
  obtain ⟨q,hq,hs⟩ := Option.bind_eq_some_iff.mp hs
  cases hp.symm.trans hq
  obtain ⟨x,hx,hs⟩ := Option.bind_eq_some_iff.mp hs
  split_ifs at hs
  cases hs
  refine commit_rows fun hkey => hj ?_
  obtain ⟨z,hz,hclaimed⟩ := hsound.issued w p hp
  cases hx.symm.trans hz
  simp only [System.inForce,Bool.and_eq_true,Option.any_eq_true,decide_eq_true_eq] at hforce
  obtain ⟨_,e,_,he,r,hr,hown⟩ := hforce
  have hcommit : r.ownedBy x.instanceId p.epoch = true := by
    simpa [careful,hp,hrelease,hx,← hkey,hr] using hc
  have hsame : e = p.epoch := (ownedBy_iff.mp hown).2.symm.trans (ownedBy_iff.mp hcommit).2
  exact hsound.apart j p.object y x e hy hx hkey he (hsame ▸ hclaimed)

def plainRelease : Call := .release ⟨"",0,5,false⟩

def plainRenewal : Renewal := ⟨"",0,9,60000000,none,none,none,none,none⟩

/-- An object is closed and has released its row before the next one claims it. That
one is closed in turn while an object of another key is live. -/
def orderlyEvents : List Event :=
  [.create 0 "a" "k",.claim 0 (Leases.plainClaim ""),.close 0,.issue 0 0 plainRelease,.commit 0,
    .create 1 "a" "k",.claim 1 (Leases.plainClaim ""),.create 2 "b" "j",
    .claim 2 (Leases.plainClaim ""),.close 1,.issue 1 1 plainRelease]

/-- The second release closes its own row and not the one of the live object. -/
theorem orderly_claims_fenced :
    ∃ s t y, Run (restrict (Steps step) fun s e => careful s e = true) System.start orderlyEvents s ∧
      careful s (.commit 1) = true ∧ step s (.commit 1) = some t ∧
      s.objects.get? 2 = some y ∧ s.inForce y = true ∧
      (t.rows.get? "k").map Record.state = some .closed ∧ PerClaim s (.commit 1) t := by
  obtain ⟨s,hrun,hcareful,hobject,hclosed⟩ := exists_run_of_exec (f := step)
    (G := fun s e => careful s e = true) (s := System.start) (l := orderlyEvents)
    (p := fun s => careful s (.commit 1) = true ∧ (s.objects.get? 2).any s.inForce = true ∧
      (step s (.commit 1)).any (fun t => (t.rows.get? "k").map Record.state = some .closed) = true)
    (by decide +kernel)
  obtain ⟨y,hy,hforce⟩ := (Option.any_eq_true _ _).mp hobject
  obtain ⟨t,ht,hrow⟩ := (Option.any_eq_true _ _).mp hclosed
  exact ⟨s,t,y,hrun,hcareful,ht,hy,hforce,of_decide_eq_true hrow,claims_fenced hrun hcareful ht⟩

/-- The first object is closed, and before it releases the row, a second object of the
same instance has claimed it. -/
def lateCloseEvents : List Event :=
  [.create 0 "a" "k",.claim 0 (Leases.plainClaim ""),.close 0,.create 1 "a" "k",
    .claim 1 (Leases.plainClaim ""),.issue 0 0 plainRelease]

/-- Instance `b` has taken the row over when an object of `a` refreshes. -/
def copiedEpochEvents : List Event :=
  [.create 0 "a" "k",.claim 0 (Leases.plainClaim ""),.create 1 "b" "k",
    .claim 1 (Leases.plainClaim ""),.issue 0 0 (.refresh plainRenewal)]

/-- The late release closes the row under a live object that holds it. After the
refresh an object holds the epoch of another instance and issues calls with it. -/
theorem claims_not_fenced :
    (∃ s t y, Run (Steps step) System.start lateCloseEvents s ∧ step s (.commit 0) = some t ∧
      s.objects.get? 1 = some y ∧ s.inForce y = true ∧
      (t.rows.get? "k").map Record.state = some .closed ∧ ¬ PerClaim s (.commit 0) t) ∧
    ∃ s t x, Run (Steps step) System.start copiedEpochEvents s ∧
      step s (.issue 0 0 (.register plainRenewal)) = some t ∧ s.objects.get? 0 = some x ∧
      x.ownerEpoch = some 2 ∧ x.claimed = [1] ∧
      ¬ PerClaim s (.issue 0 0 (.register plainRenewal)) t := by
  constructor
  · obtain ⟨s,hrun,hwrite,hobject,hbefore,hafter⟩ := exists_steps_of_exec (f := step)
      (s := System.start) (l := lateCloseEvents)
      (p := fun s => (s.writes.get? 0).any (fun p => p.call.isRelease && p.object = 0) = true ∧
        (s.objects.get? 1).any (fun y => s.inForce y && y.key = "k") = true ∧
        (s.rows.get? "k").map Record.state ≠ some .closed ∧
        (step s (.commit 0)).any (fun t => (t.rows.get? "k").map Record.state = some .closed) = true)
      (by decide +kernel)
    obtain ⟨p,hp,hpending⟩ := (Option.any_eq_true _ _).mp hwrite
    obtain ⟨y,hy,hheld⟩ := (Option.any_eq_true _ _).mp hobject
    obtain ⟨t,ht,hclosed⟩ := (Option.any_eq_true _ _).mp hafter
    simp only [Bool.and_eq_true,decide_eq_true_eq] at hpending hheld hclosed
    refine ⟨s,t,y,hrun,ht,hy,hheld.1,hclosed,?_⟩
    intro hclaim
    have hsame := hclaim.release 0 p rfl hp hpending.1 1 y hy (by omega) hheld.1
    rw [hheld.2] at hsame
    exact hbefore (hsame ▸ hclosed)
  · obtain ⟨s,hrun,hobject,hissue⟩ := exists_steps_of_exec (f := step)
      (s := System.start) (l := copiedEpochEvents)
      (p := fun s => (s.objects.get? 0).any (fun x => x.ownerEpoch = some 2 && x.claimed = [1]) = true ∧
        (step s (.issue 0 0 (.register plainRenewal))).isSome = true) (by decide +kernel)
    obtain ⟨x,hx,hepoch⟩ := (Option.any_eq_true _ _).mp hobject
    obtain ⟨t,ht⟩ := Option.isSome_iff_exists.mp hissue
    simp only [Bool.and_eq_true,decide_eq_true_eq] at hepoch
    refine ⟨s,t,x,hrun,ht,hx,hepoch.1,hepoch.2,?_⟩
    intro hclaim
    have hmem := hclaim.issued 0 0 _ x 2 rfl hx hepoch.1
    rw [hepoch.2] at hmem
    exact absurd hmem (by decide)

end CodexLb.DurableBridge.Fencing
