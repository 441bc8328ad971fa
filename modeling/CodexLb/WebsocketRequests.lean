import CodexLb.TrafficMatching

/-!
# The requests of a websocket and their gate

The request objects of one proxied websocket together with its response-create
gate, a semaphore with one permit. A request has two flags for it:
`response_create_gate_acquired`, and `awaiting_response_created`, which the code
sets and clears with the first. The structure carries that at most one request
has the permit, that the semaphore counts it, and that the flags agree; its
operations are those of the source, and no other can be built.
-/
namespace CodexLb.WebsocketProxy
open Traffic

/-- The request objects with the semaphore. `holder` is a ghost: the request that
has the permit. -/
structure Book (F : Type) where
  table : Dict RequestId (Request F)
  gate : ℕ
  holder : Option RequestId
  held : ∀ q, (∃ r, table.get? q = some r ∧ r.responseCreateGateAcquired = true) ↔ holder = some q
  permits : gate = if holder = none then 1 else 0
  paired : ∀ q r, table.get? q = some r →
    r.awaitingResponseCreated = r.responseCreateGateAcquired

namespace Book
variable {F : Type} (b : Book F)

def empty : Book F where
  table := Dict.empty
  gate := 1
  holder := none
  held := by simp
  permits := rfl
  paired := by simp

/-- A request object in a new state, with the permit where it says. -/
def put (q : RequestId) (r : Request F) (gate : ℕ) (holder : Option RequestId)
    (hq : r.responseCreateGateAcquired = true ↔ holder = some q)
    (hother : ∀ p, p ≠ q → (b.holder = some p ↔ holder = some p))
    (hgate : gate = if holder = none then 1 else 0)
    (hpaired : r.awaitingResponseCreated = r.responseCreateGateAcquired) : Book F where
  table := b.table.set q r
  gate := gate
  holder := holder
  held := by
    intro p
    rw [Dict.get?_set]
    split_ifs with hp
    · simp [hp,hq]
    · rw [b.held p,hother p hp]
  permits := hgate
  paired := by
    intro p s hs
    rw [Dict.get?_set] at hs
    split_ifs at hs with hp
    · cases hs
      exact hpaired
    · exact b.paired p s hs

variable {q : RequestId} {r : Request F}

theorem acquired_iff (hr : b.table.get? q = some r) :
    r.responseCreateGateAcquired = true ↔ b.holder = some q := by
  rw [← b.held q]
  constructor
  · exact fun h => ⟨r,hr,h⟩
  · rintro ⟨s,hs,h⟩
    rw [Option.some.inj (hr.symm.trans hs)]
    exact h

/-- A change of a request that leaves the two flags of the gate alone. -/
def update (q : RequestId) (f : Request F → Request F)
    (hf : ∀ r, (f r).responseCreateGateAcquired = r.responseCreateGateAcquired ∧
      (f r).awaitingResponseCreated = r.awaitingResponseCreated) : Book F :=
  match hq : b.table.get? q with
  | none => b
  | some r => b.put q (f r) b.gate b.holder (by rw [(hf r).1]; exact b.acquired_iff hq)
      (fun _ _ => Iff.rfl) b.permits (by rw [(hf r).1,(hf r).2]; exact b.paired q r hq)

def fresh (r : Request F) : Request F :=
  {r with
    responseId := none
    awaitingResponseCreated := false
    eventQueue := false
    replayCount := 0
    responseEventCount := 0
    responseCreateGateAcquired := false
    suppressedDuplicateToolCall := false
    downstreamVisible := false
    drainingUntilTerminal := false}

theorem holder_ne_of_absent (hq : b.table.get? q = none) : b.holder ≠ some q := by
  intro h
  obtain ⟨r,hr,_⟩ := (b.held q).mpr h
  rw [hq] at hr
  cases hr

def add (q : RequestId) (r : Request F) (hq : b.table.get? q = none) : Book F :=
  b.put q (fresh r) b.gate b.holder (by simp [fresh,b.holder_ne_of_absent hq])
    (fun _ _ => Iff.rfl) b.permits rfl

theorem holder_eq_none (hg : b.gate ≠ 0) : b.holder = none := by
  by_contra h
  exact hg (by rw [b.permits,if_neg h])

/-- `await response_create_gate.acquire()` once a permit is there. -/
def acquire (q : RequestId) : Option (Book F) :=
  match b.table.get? q with
  | none => none
  | some r =>
    if hg : b.gate = 0 then none
    else some (b.put q {r with responseCreateGateAcquired := true,awaitingResponseCreated := true}
      (b.gate-1) (some q) (by simp) (fun p hp => by simp [b.holder_eq_none hg,Ne.symm hp])
      (by rw [b.permits,if_pos (b.holder_eq_none hg)]; rfl) rfl)

theorem release_gate (hr : b.table.get? q = some r) :
    (if r.responseCreateGateAcquired then b.gate+1 else b.gate) =
      if (if r.responseCreateGateAcquired then none else b.holder) = none then 1 else 0 := by
  by_cases ha : r.responseCreateGateAcquired = true
  · simp [ha,b.permits,(b.acquired_iff hr).mp ha]
  · simp [ha,b.permits]

/-- `_release_websocket_response_create_gate`. -/
def release (q : RequestId) : Book F :=
  match hq : b.table.get? q with
  | none => b
  | some r => b.put q
      {r with awaitingResponseCreated := false,responseCreateGateAcquired := false}
      (if r.responseCreateGateAcquired then b.gate+1 else b.gate)
      (if r.responseCreateGateAcquired then none else b.holder)
      (by
        by_cases ha : r.responseCreateGateAcquired = true
        · simp [ha]
        · simp [ha,← b.acquired_iff hq])
      (by
        intro p hp
        by_cases ha : r.responseCreateGateAcquired = true
        · simp [ha,(b.acquired_iff hq).mp ha,Ne.symm hp]
        · simp [ha])
      (b.release_gate hq) rfl

@[simp] theorem holder_update (q : RequestId) (f : Request F → Request F)
    (hf : ∀ r, (f r).responseCreateGateAcquired = r.responseCreateGateAcquired ∧
      (f r).awaitingResponseCreated = r.awaitingResponseCreated) :
    (b.update q f hf).holder = b.holder := by
  unfold update
  split <;> rfl

theorem holder_release (q : RequestId) :
    (b.release q).holder = if b.holder = some q then none else b.holder := by
  unfold release
  split
  · rename_i hq
    rw [if_neg (b.holder_ne_of_absent hq)]
  · rename_i r hr
    simp only [put,b.acquired_iff hr]

end Book

end CodexLb.WebsocketProxy
