import CodexLb.Dict
import CodexLb.Runs

/-!
# Read-through caches with a version

A lookup asks the cache; on a miss it notes the version of the cache, reads the
database, possibly several times, and stores what it found if the version is still
the one it noted. An invalidation removes entries and moves the version on. A writer
commits to the database and then invalidates.

Times count the steps of a run. A loaded value keeps the times of its reads, so that
a value is stale with respect to a commit if one of its reads came before it.
`Fresh c P` says that no value read up to time `c` will be served for a key in `P`:
an invalidation establishes it and nothing undoes it.
-/
namespace CodexLb.ReadThrough
open Runs

structure Loaded (D : Type*) where
  data : D
  reads : List ℕ

/-- The operations of a cache, at a moment of the clocks they look at. `holds` is an
entry whether or not its time is over. `outlived` is a value the reader throws away
although the cache returned it. -/
structure Cache (C M K D T : Type*) where
  get? : C → M → K → Option (Loaded D)
  version : C → ℕ
  setIf : C → M → K → Loaded D → ℕ → C
  invalidate : C → T → C
  affects : T → K → Prop
  outlived : D → M → Bool
  own : K → T
  holds : C → K → Loaded D → Prop
  holds_get? : ∀ {c m k v}, get? c m k = some v → holds c k v
  version_setIf : ∀ c m k v n, version (setIf c m k v n) = version c
  holds_setIf : ∀ {c m k v n j w}, holds (setIf c m k v n) j w →
    holds c j w ∨ n = version c ∧ j = k ∧ w = v
  version_invalidate : ∀ c t, version c < version (invalidate c t)
  holds_invalidate : ∀ {c t j w}, holds (invalidate c t) j w → ¬affects t j ∧ holds c j w

inductive Stage (K : Type*) where
  | expired (key : K)
  | missed (key : K)
  | loading (key : K) (version : ℕ) (reads : List ℕ)

def Stage.reads {K : Type*} : Stage K → List ℕ
  | .loading _ _ reads => reads
  | _ => []

structure Reader (C K : Type*) where
  cache : C
  lookups : Dict ℕ (Stage K)
  now : ℕ

inductive Move (M K D : Type*) where
  | get (id : ℕ) (key : K) (m : M)
  | drop (id : ℕ)
  | takeVersion (id : ℕ)
  | read (id : ℕ)
  | store (id : ℕ) (data : D) (m : M)
  | fail (id : ℕ)

section Readers
variable {C M K D T : Type*} (o : Cache C M K D T)

namespace Reader

def moved (r : Reader C K) (id : ℕ) (stage : Stage K) : Reader C K :=
  {r with lookups := r.lookups.set id stage, now := r.now+1}

def ended (r : Reader C K) (id : ℕ) : Reader C K :=
  {r with lookups := r.lookups.pop id, now := r.now+1}

def idle (r : Reader C K) : Reader C K := {r with now := r.now+1}

def invalidated (r : Reader C K) (t : T) : Reader C K :=
  {r with cache := o.invalidate r.cache t, now := r.now+1}

def move (r : Reader C K) : Move M K D → Option (Reader C K)
  | .get id key m =>
    match r.lookups.get? id,o.get? r.cache m key with
    | some _,_ => none
    | none,none => some (r.moved id (.missed key))
    | none,some v => some (if o.outlived v.data m then r.moved id (.expired key) else r.idle)
  | .drop id =>
    match r.lookups.get? id with
    | some (.expired key) =>
      some {(r.invalidated o (o.own key)) with lookups := r.lookups.set id (.missed key)}
    | _ => none
  | .takeVersion id =>
    match r.lookups.get? id with
    | some (.missed key) => some (r.moved id (.loading key (o.version r.cache) []))
    | _ => none
  | .read id =>
    match r.lookups.get? id with
    | some (.loading key version reads) =>
      some (r.moved id (.loading key version (reads++[r.now])))
    | _ => none
  | .store id data m =>
    match r.lookups.get? id with
    | some (.loading key version reads) =>
      if reads = [] then none
      else some {(r.ended id) with cache := o.setIf r.cache m key ⟨data,reads⟩ version}
    | _ => none
  | .fail id =>
    match r.lookups.get? id with
    | some (.loading _ _ _) => some (r.ended id)
    | _ => none

end Reader

inductive Effect (r : Reader C K) : Reader C K → Prop where
  | idle : Effect r r.idle
  | asked (id : ℕ) (stage : Stage K)
      (hstage : ∀ key version reads, stage ≠ .loading key version reads) :
      Effect r (r.moved id stage)
  | dropped (id : ℕ) (key : K) :
      Effect r {(r.invalidated o (o.own key)) with lookups := r.lookups.set id (.missed key)}
  | versioned (id : ℕ) (key : K) : Effect r (r.moved id (.loading key (o.version r.cache) []))
  | read (id : ℕ) (key : K) (version : ℕ) (reads : List ℕ)
      (hstage : r.lookups.get? id = some (.loading key version reads)) :
      Effect r (r.moved id (.loading key version (reads++[r.now])))
  | stored (id : ℕ) (key : K) (version : ℕ) (reads : List ℕ) (data : D) (m : M)
      (hstage : r.lookups.get? id = some (.loading key version reads)) :
      Effect r {(r.ended id) with cache := o.setIf r.cache m key ⟨data,reads⟩ version}
  | ended (id : ℕ) : Effect r (r.ended id)

variable {r s : Reader C K}

theorem move_effect {a : Move M K D} (h : r.move o a = some s) : Effect o r s := by
  cases a with
  | get id key m =>
    rw [Reader.move] at h
    split at h
    · cases h
    · cases h; exact .asked id _ (fun _ _ _ => nofun)
    · split_ifs at h
      · cases h; exact .asked id _ (fun _ _ _ => nofun)
      · cases h; exact .idle
  | drop id =>
    rw [Reader.move] at h
    split at h
    · cases h; exact .dropped id _
    · cases h
  | takeVersion id =>
    rw [Reader.move] at h
    split at h
    · cases h; exact .versioned id _
    · cases h
  | read id =>
    rw [Reader.move] at h
    split at h
    · next hstage => cases h; exact .read id _ _ _ hstage
    · cases h
  | store id data m =>
    rw [Reader.move] at h
    split at h
    · next hstage =>
        split_ifs at h
        cases h
        exact .stored id _ _ _ data m hstage
    · cases h
  | fail id =>
    rw [Reader.move] at h
    split at h
    · cases h; exact .ended id
    · cases h

/-- No lookup has noted a version that is still to come. -/
def Reader.Behind (r : Reader C K) : Prop :=
  ∀ id key version reads, r.lookups.get? id = some (.loading key version reads) →
    version ≤ o.version r.cache

/-- Nothing read up to a time will be served for these keys. -/
structure Fresh (c : ℕ) (P : K → Prop) (r : Reader C K) : Prop where
  entries : ∀ {key v}, P key → o.holds r.cache key v → ∀ t ∈ v.reads, c < t
  loading : ∀ {id key version reads}, P key →
    r.lookups.get? id = some (.loading key version reads) → version = o.version r.cache →
    ∀ t ∈ reads, c < t

variable {o} {id j : ℕ}

theorem get?_moved {stage : Stage K} {s : Stage K} (h : (r.lookups.set id stage).get? j = some s) :
    s = stage ∨ r.lookups.get? j = some s := by
  rw [Dict.get?_set] at h
  split_ifs at h
  · exact .inl (Option.some.inj h).symm
  · exact .inr h

theorem get?_ended {s : Stage K} (h : (r.lookups.pop id).get? j = some s) :
    r.lookups.get? j = some s := by
  rw [Dict.get?_pop] at h
  split_ifs at h
  exact h

theorem behind_invalidated (h : r.Behind o) (t : T) : (r.invalidated o t).Behind o :=
  fun id key version reads hstage =>
    (h id key version reads hstage).trans (o.version_invalidate r.cache t).le

theorem behind_effect (h : r.Behind o) (he : Effect o r s) : s.Behind o := by
  cases he with
  | idle => exact h
  | asked id stage hstage =>
    intro j key version reads hj
    rcases get?_moved hj with heq | hj
    · exact absurd heq.symm (hstage _ _ _)
    · exact h j key version reads hj
  | dropped id key =>
    intro j key' version reads hj
    rcases get?_moved hj with heq | hj
    · cases heq
    · exact behind_invalidated h _ j key' version reads hj
  | versioned id key =>
    intro j key' version reads hj
    rcases get?_moved hj with heq | hj
    · cases heq; exact le_rfl
    · exact h j key' version reads hj
  | read id key version reads hstage =>
    intro j key' version' reads' hj
    rcases get?_moved hj with heq | hj
    · cases heq; exact h id key version reads hstage
    · exact h j key' version' reads' hj
  | stored id key version reads data m hstage =>
    intro j key' version' reads' hj
    rw [o.version_setIf]
    exact h j key' version' reads' (get?_ended hj)
  | ended id =>
    intro j key version reads hj
    exact h j key version reads (get?_ended hj)

theorem outrun (h : r.Behind o) {t : T} {key : K} {version : ℕ} {reads : List ℕ}
    (hstage : r.lookups.get? id = some (.loading key version reads)) :
    version ≠ o.version (o.invalidate r.cache t) := by
  intro heq
  have hmoved := o.version_invalidate r.cache t
  exact absurd (heq ▸ h id key version reads hstage) (Nat.not_le.2 hmoved)

/-- An invalidation leaves nothing older than itself. -/
theorem fresh_invalidated (h : r.Behind o) (t : T) (c : ℕ) :
    Fresh o c (o.affects t) (r.invalidated o t) where
  entries haffects hholds := absurd haffects (o.holds_invalidate hholds).1
  loading _ hstage heq := absurd heq (outrun h hstage)

variable {c : ℕ} {P : K → Prop}

theorem Fresh.invalidated (h : Fresh o c P r) (hbehind : r.Behind o) (t : T) :
    Fresh o c P (r.invalidated o t) where
  entries hP hholds := h.entries hP (o.holds_invalidate hholds).2
  loading _ hstage heq := absurd heq (outrun hbehind hstage)

/-- What is read from now on is newer than a time that has passed. -/
theorem Fresh.effect (h : Fresh o c P r) (hbehind : r.Behind o) (hc : c < r.now)
    (he : Effect o r s) : Fresh o c P s := by
  cases he with
  | idle => exact ⟨h.entries,h.loading⟩
  | asked id stage hstage =>
    refine ⟨h.entries,fun hP hj heq => ?_⟩
    rcases get?_moved hj with hsame | hj
    · exact absurd hsame.symm (hstage _ _ _)
    · exact h.loading hP hj heq
  | dropped id key =>
    refine ⟨(h.invalidated hbehind _).entries,fun hP hj heq => ?_⟩
    rcases get?_moved hj with hsame | hj
    · cases hsame
    · exact (h.invalidated hbehind (o.own key)).loading hP hj heq
  | versioned id key =>
    refine ⟨h.entries,fun hP hj heq => ?_⟩
    rcases get?_moved hj with hsame | hj
    · cases hsame
      exact fun t ht => absurd ht List.not_mem_nil
    · exact h.loading hP hj heq
  | read id key version reads hstage =>
    refine ⟨h.entries,fun hP hj heq => ?_⟩
    rcases get?_moved hj with hsame | hj
    · cases hsame
      intro t ht
      rcases List.mem_append.1 ht with ht | ht
      · exact h.loading hP hstage heq t ht
      · rw [List.mem_singleton.1 ht]; exact hc
    · exact h.loading hP hj heq
  | stored id key version reads data m hstage =>
    refine ⟨fun hP hholds => ?_,fun hP hj heq => ?_⟩
    · rcases o.holds_setIf hholds with hholds | ⟨hversion,rfl,rfl⟩
      · exact h.entries hP hholds
      · exact h.loading hP hstage hversion
    · refine h.loading hP (get?_ended hj) (heq.trans ?_)
      exact o.version_setIf r.cache m key ⟨data,reads⟩ version
  | ended id => exact ⟨h.entries,fun hP hj heq => h.loading hP (get?_ended hj) heq⟩

theorem now_effect (he : Effect o r s) : s.now = r.now+1 := by
  cases he <;> rfl

end Readers

/-- `pending` are the commits whose writer has not invalidated yet, `done` those whose
writer has, each with its time. -/
structure World (C K T : Type*) where
  reader : Reader C K
  pending : Dict ℕ (ℕ × T)
  done : List (ℕ × T)

inductive Action (M K D T : Type*) where
  | move (a : Move M K D)
  | commit (id : ℕ) (t : T)
  | invalidate (id : ℕ)

section Writers
variable {C M K D T : Type*} (o : Cache C M K D T)

def World.start (cache : C) : World C K T := ⟨⟨cache,Dict.empty,0⟩,Dict.empty,[]⟩

def World.step (w : World C K T) : Action M K D T → Option (World C K T)
  | .move a => (w.reader.move o a).map fun r => {w with reader := r}
  | .commit id t =>
    match w.pending.get? id with
    | some _ => none
    | none => some {w with
        reader := w.reader.idle
        pending := w.pending.set id (w.reader.now,t)}
  | .invalidate id =>
    match w.pending.get? id with
    | none => none
    | some commit => some {
        reader := w.reader.invalidated o commit.2
        pending := w.pending.pop id
        done := commit::w.done}

structure World.Inv (w : World C K T) : Prop where
  behind : w.reader.Behind o
  pending : ∀ id commit, w.pending.get? id = some commit → commit.1 < w.reader.now
  done : ∀ commit ∈ w.done, commit.1 < w.reader.now
  fresh : ∀ commit ∈ w.done, Fresh o commit.1 (o.affects commit.2) w.reader

variable {o} {w : World C K T}

theorem World.Inv.step {u : World C K T} {a : Action M K D T} (h : w.Inv o)
    (hstep : w.step o a = some u) : u.Inv o := by
  cases a with
  | move a =>
    obtain ⟨r,hr,rfl⟩ := Option.map_eq_some_iff.1 hstep
    have he := move_effect o hr
    have hnow : w.reader.now < r.now := by rw [now_effect he]; exact Nat.lt_succ_self _
    exact ⟨behind_effect h.behind he,fun id c hc => (h.pending id c hc).trans hnow,
      fun c hc => (h.done c hc).trans hnow,
      fun c hc => (h.fresh c hc).effect h.behind (h.done c hc) he⟩
  | commit id t =>
    rw [World.step] at hstep
    split at hstep
    · cases hstep
    · cases hstep
      refine ⟨h.behind,fun j c hc => ?_,fun c hc => (h.done c hc).trans (Nat.lt_succ_self _),
        fun c hc => ⟨(h.fresh c hc).entries,(h.fresh c hc).loading⟩⟩
      simp only [Dict.get?_set] at hc
      split_ifs at hc
      · rw [← Option.some.inj hc]; exact Nat.lt_succ_self _
      · exact (h.pending j c hc).trans (Nat.lt_succ_self _)
  | invalidate id =>
    rw [World.step] at hstep
    split at hstep
    · cases hstep
    · next commit hcommit =>
        cases hstep
        have hlater {c : ℕ} (hc : c < w.reader.now) : c < w.reader.now+1 :=
          hc.trans (Nat.lt_succ_self _)
        refine ⟨behind_invalidated h.behind _,fun j c hc => ?_,fun c hc => ?_,fun c hc => ?_⟩
        · simp only [Dict.get?_pop] at hc
          split_ifs at hc
          exact hlater (h.pending j c hc)
        · rcases List.mem_cons.1 hc with rfl | hc
          · exact hlater (h.pending id c hcommit)
          · exact hlater (h.done c hc)
        · rcases List.mem_cons.1 hc with rfl | hc
          · exact fresh_invalidated h.behind _ _
          · exact (h.fresh c hc).invalidated h.behind _

/-- In every interleaving, what the cache returns for a key was read after the commit
of every writer that has invalidated the key. -/
theorem reads_after_done {cache : C} {as : List (Action M K D T)}
    (hrun : Run (Steps (World.step o)) (World.start cache) as w) {m : M} {key : K} {v : Loaded D}
    (hit : o.get? w.reader.cache m key = some v) {commit : ℕ × T} (hdone : commit ∈ w.done)
    (haffects : o.affects commit.2 key) : ∀ t ∈ v.reads, commit.1 < t := by
  have hstart : (World.start cache : World C K T).Inv o :=
    ⟨fun _ _ _ _ h => Dict.not_mem_empty h,fun _ _ h => Dict.not_mem_empty h,nofun,nofun⟩
  have hinv := hrun.invariant (I := World.Inv o) (fun _ _ _ h hstep => h.step hstep) hstart
  exact (hinv.fresh commit hdone).entries haffects (o.holds_get? hit)

end Writers

end CodexLb.ReadThrough
