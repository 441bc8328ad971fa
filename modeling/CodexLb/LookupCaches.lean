import CodexLb.ReadThrough
import Mathlib.Algebra.Order.Ring.Rat
import Mathlib.Data.List.MinMax

/-!
# The caches of API keys and of selection inputs

`app/core/auth/api_key_cache.py` with `_validate_api_key_token`, and
`app/modules/proxy/account_cache.py` with `_load_selection_inputs`. Both are
read-through caches; they differ in how much an invalidation removes, in what
they do when they are full and in when an entry counts as expired. An operation
under the lock of its cache is one step.

Of the data of a key only its own expiry is looked at.
-/
namespace CodexLb.LookupCaches
open Runs ReadThrough

/-- The two clocks a lookup reads. -/
structure Moment where
  monotonic : ℚ
  utcnow : ℚ

structure Cached (V : Type*) where
  data : V
  expiresAt : ℚ

structure ApiKeyCache (V : Type*) where
  cache : Dict String (Cached V)
  version : ℕ
  ttl : ℚ
  maxEntries : ℕ
  maxEntries_pos : 0 < maxEntries

namespace ApiKeyCache
variable {V : Type*} (c : ApiKeyCache V)

def get (now : ℚ) (keyHash : String) : Option V :=
  match c.cache.get? keyHash with
  | some entry => if now < entry.expiresAt then some entry.data else none
  | none => none

def oldest : Option String := (c.cache.rows.argmin fun q => q.2.expiresAt).map Prod.fst

def evicted : Dict String (Cached V) :=
  if c.cache.rows.length ≥ c.maxEntries then
    match c.oldest with
    | some key => c.cache.pop key
    | none => c.cache
  else c.cache

def set (now : ℚ) (keyHash : String) (data : V) (ifVersion : Option ℕ) : ApiKeyCache V :=
  if ifVersion.any (· ≠ c.version) then c
  else {c with cache := c.evicted.set keyHash ⟨data,now+c.ttl⟩}

def invalidate (keyHash : String) : ApiKeyCache V :=
  {c with cache := c.cache.pop keyHash, version := c.version+1}

def clear : ApiKeyCache V := {c with cache := Dict.empty, version := c.version+1}

theorem get?_evicted {key : String} {entry : Cached V} (h : c.evicted.get? key = some entry) :
    c.cache.get? key = some entry := by
  rw [evicted] at h
  split at h
  · split at h
    · rw [Dict.get?_pop] at h
      split_ifs at h
      exact h
    · exact h
  · exact h

end ApiKeyCache

structure ApiKeyData where
  keyId : String
  expiresAt : Option ℚ

inductive Target where
  | key (keyHash : String)
  | all

def Target.affects : Target → String → Prop
  | .key keyHash,j => j = keyHash
  | .all,_ => True

/-- `_validate_api_key_token` throws a key away that has expired. -/
def apiKeys : ReadThrough.Cache (ApiKeyCache (Loaded ApiKeyData)) Moment String ApiKeyData Target
    where
  get? c m keyHash := c.get m.monotonic keyHash
  version c := c.version
  setIf c m keyHash v version := c.set m.monotonic keyHash v (some version)
  invalidate c t := match t with
    | .key keyHash => c.invalidate keyHash
    | .all => c.clear
  affects := Target.affects
  outlived data m := data.expiresAt.any (· ≤ m.utcnow)
  own := .key
  holds c keyHash v := ∃ expiresAt, c.cache.get? keyHash = some ⟨v,expiresAt⟩
  holds_get? := by
    intro c m keyHash v h
    rw [ApiKeyCache.get] at h
    split at h
    · next entry hentry =>
        split_ifs at h
        cases h
        exact ⟨entry.expiresAt,hentry⟩
    · cases h
  version_setIf := by
    intro c m keyHash v version
    rw [ApiKeyCache.set]
    split_ifs <;> rfl
  holds_setIf := by
    intro c m keyHash v version j w h
    obtain ⟨expiresAt,h⟩ := h
    rw [ApiKeyCache.set] at h
    split_ifs at h with hversion
    · exact .inl ⟨expiresAt,h⟩
    · simp only [Dict.get?_set] at h
      split_ifs at h with hj
      · have hsame : version = c.version := by simpa using hversion
        cases h
        exact .inr ⟨hsame,hj,rfl⟩
      · exact .inl ⟨expiresAt,c.get?_evicted h⟩
  version_invalidate := by
    intro c t
    cases t <;> exact Nat.lt_succ_self _
  holds_invalidate := by
    intro c t j w h
    obtain ⟨expiresAt,h⟩ := h
    cases t with
    | key keyHash =>
      simp only [ApiKeyCache.invalidate,Dict.get?_pop] at h
      split_ifs at h with hj
      exact ⟨hj,expiresAt,h⟩
    | all => exact Dict.not_mem_empty h

/-- The model, the additional limit and the accounts a selection is restricted to. -/
abbrev CacheKey := Option String × Option String × Option (List String)

structure AccountSelectionCache (V : Type*) where
  cache : Dict CacheKey (Cached V)
  generation : ℕ
  ttlSeconds : ℕ

namespace AccountSelectionCache
variable {V : Type*} (c : AccountSelectionCache V)

def get (now : ℚ) (key : CacheKey) : Option V :=
  if c.ttlSeconds = 0 then none
  else match c.cache.get? key with
    | none => none
    | some entry => if now ≥ entry.expiresAt then none else some entry.data

def set (now : ℚ) (data : V) (key : CacheKey) (generation : Option ℕ) : AccountSelectionCache V :=
  if generation.any (· ≠ c.generation) then c
  else {c with cache := c.cache.set key ⟨data,now+c.ttlSeconds⟩}

def invalidate : AccountSelectionCache V :=
  {c with cache := Dict.empty, generation := c.generation+1}

end AccountSelectionCache

/-- `_load_selection_inputs` returns whatever the cache has. -/
def selectionInputs (D : Type*) :
    ReadThrough.Cache (AccountSelectionCache (Loaded D)) Moment CacheKey D Unit where
  get? c m key := c.get m.monotonic key
  version c := c.generation
  setIf c m key v generation := c.set m.monotonic v key (some generation)
  invalidate c _ := c.invalidate
  affects _ _ := True
  outlived _ _ := false
  own _ := ()
  holds c key v := ∃ expiresAt, c.cache.get? key = some ⟨v,expiresAt⟩
  holds_get? := by
    intro c m key v h
    rw [AccountSelectionCache.get] at h
    split_ifs at h
    split at h
    · cases h
    · next entry hentry =>
        split_ifs at h
        cases h
        exact ⟨entry.expiresAt,hentry⟩
  version_setIf := by
    intro c m key v generation
    rw [AccountSelectionCache.set]
    split_ifs <;> rfl
  holds_setIf := by
    intro c m key v generation j w h
    obtain ⟨expiresAt,h⟩ := h
    rw [AccountSelectionCache.set] at h
    split_ifs at h with hgeneration
    · exact .inl ⟨expiresAt,h⟩
    · simp only [Dict.get?_set] at h
      split_ifs at h with hj
      · have hsame : generation = c.generation := by simpa using hgeneration
        cases h
        exact .inr ⟨hsame,hj,rfl⟩
      · exact .inl ⟨expiresAt,h⟩
  version_invalidate c _ := Nat.lt_succ_self _
  holds_invalidate := by
    intro c t j w h
    obtain ⟨expiresAt,h⟩ := h
    exact Dict.not_mem_empty h

/-- In every interleaving of lookups and writers, from any state of the caches, a hit
was read after the commit of every writer that has invalidated its key. -/
theorem hits_read_after_invalidation : (∀ (cache : ApiKeyCache (Loaded ApiKeyData))
        (as : List (Action Moment String ApiKeyData Target))
        (w : World (ApiKeyCache (Loaded ApiKeyData)) String Target),
      Run (Steps (World.step apiKeys)) (World.start cache) as w →
      ∀ (now : ℚ) (keyHash : String) (v : Loaded ApiKeyData),
        w.reader.cache.get now keyHash = some v →
        ∀ commit ∈ w.done, commit.2.affects keyHash → ∀ t ∈ v.reads, commit.1 < t) ∧
    ∀ (D : Type) (cache : AccountSelectionCache (Loaded D))
        (as : List (Action Moment CacheKey D Unit))
        (w : World (AccountSelectionCache (Loaded D)) CacheKey Unit),
      Run (Steps (World.step (selectionInputs D))) (World.start cache) as w →
      ∀ (now : ℚ) (key : CacheKey) (v : Loaded D), w.reader.cache.get now key = some v →
        ∀ commit ∈ w.done, ∀ t ∈ v.reads, commit.1 < t := by
  constructor
  · intro cache as w hrun now keyHash v hit commit hdone haffects
    exact reads_after_done (m := ⟨now,0⟩) hrun hit hdone haffects
  · intro D cache as w hrun now key v hit commit hdone
    exact reads_after_done (m := ⟨now,0⟩) hrun hit hdone trivial

def emptyCache : ApiKeyCache (Loaded ApiKeyData) := ⟨Dict.empty,0,2,10000,by decide⟩

def noon : Moment := ⟨0,0⟩

def someKey : ApiKeyData := ⟨"id",none⟩

/-- A lookup reads the database before a commit and stores after the invalidation,
a second lookup starts over. -/
def overtaken : List (Action Moment String ApiKeyData Target) :=
  [.move (.get 0 "k" noon),.move (.takeVersion 0),.move (.read 0),.commit 0 (.key "k"),
    .invalidate 0,.move (.store 0 someKey noon),.move (.get 1 "k" noon),.move (.takeVersion 1),
    .move (.read 1),.move (.store 1 someKey noon)]

theorem overtaken_lookup_not_served :
    ∃ w, Run (Steps (World.step apiKeys)) (World.start emptyCache) overtaken w ∧
      (w.reader.cache.get 1 "k").map Loaded.reads = some [8] ∧ w.done.map Prod.fst = [3] ∧
      ∀ v, w.reader.cache.get 1 "k" = some v →
        ∀ commit ∈ w.done, commit.2.affects "k" → ∀ t ∈ v.reads, commit.1 < t :=
  exists_steps_with (p := fun w => (w.reader.cache.get 1 "k").map Loaded.reads = some [8] ∧
    w.done.map Prod.fst = [3]) (fun w hrun h =>
      ⟨h.1,h.2,hits_read_after_invalidation.1 emptyCache overtaken w hrun 1 "k"⟩) (by decide +kernel)

end CodexLb.LookupCaches
