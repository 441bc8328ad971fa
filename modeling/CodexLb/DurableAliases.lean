import CodexLb.DurableSessions
import CodexLb.Dict
import CodexLb.Runs

/-!
# Continuity aliases of durable sessions

An alias leads from a turn state, a response identifier or a session header to
a session row. Each coordinator call is one step here. A claim that changes the
account of a session deletes the aliases of the session. `register_turn_state`
and `register_previous_response_id` write the alias first and check the caller's
owner and epoch afterwards, in the renewal, so a caller that has lost its lease
still writes its alias.

Keys are hashed by an arbitrary function. Row identifiers are numbered in order
of creation. The system remembers more than the tables do: each session counts
the claims that changed its account, and each alias remembers the last call that
wrote it and what the row held at that moment. A registration for a session that
does not exist violates the foreign key and changes nothing.
-/
namespace CodexLb.DurableBridge.Aliases
open Runs

inductive AliasKind where
  | turnState
  | previousResponseId
  | sessionHeader
  deriving DecidableEq, Repr

structure SessionKey (H : Type) where
  kind : String
  hash : H
  scope : String
  deriving DecidableEq, Repr

structure AliasKey (H : Type) where
  kind : AliasKind
  hash : H
  scope : String
  deriving DecidableEq, Repr

structure Session (H : Type) where
  key : SessionKey H
  record : Record
  tenure : ℕ

/-- The call that wrote an alias, with its owner and epoch if it has to give
them, and the row it met. -/
structure Binding where
  caller : Option (String × ℕ)
  rowOwner : Option String
  rowEpoch : ℕ
  account : Option String
  tenure : ℕ
  deriving DecidableEq, Repr

structure Alias where
  sessionId : ℕ
  value : String
  updatedAt : ℤ
  binding : Binding
  deriving DecidableEq, Repr

structure Store (H : Type) where
  sessions : Dict ℕ (Session H)
  aliases : Dict (AliasKey H) Alias
  nextId : ℕ

structure Registration where
  kind : AliasKind
  sessionId : ℕ
  scope : String
  value : String
  renewal : Renewal
  deriving DecidableEq, Repr

def registerTurnState (sessionId : ℕ) (scope instanceId : String) (ownerEpoch : ℕ)
    (turnState : String) (now leaseTtl : ℤ) : Registration where
  kind := .turnState
  sessionId := sessionId
  scope := scope
  value := turnState
  renewal := ⟨instanceId,ownerEpoch,now,leaseTtl,some turnState,none,none,none,none⟩

def registerPreviousResponseId (sessionId : ℕ) (scope instanceId : String) (ownerEpoch : ℕ)
    (responseId : String) (now leaseTtl : ℤ) (itemCount : Option ℤ)
    (fingerprint : Option String) : Registration where
  kind := .previousResponseId
  sessionId := sessionId
  scope := scope
  value := responseId
  renewal := ⟨instanceId,ownerEpoch,now,leaseTtl,none,some responseId,itemCount,fingerprint,none⟩

inductive Event where
  | claim (kind value scope : String) (c : Claim)
  | turnState (sessionId : ℕ) (scope instanceId : String) (ownerEpoch : ℕ) (turnState : String)
      (now leaseTtl : ℤ)
  | previousResponseId (sessionId : ℕ) (scope instanceId : String) (ownerEpoch : ℕ)
      (responseId : String) (now leaseTtl : ℤ) (itemCount : Option ℤ) (fingerprint : Option String)
  | sessionHeader (sessionId : ℕ) (scope header : String) (now : ℤ)
  | renew (sessionId : ℕ) (w : Renewal)
  | release (sessionId : ℕ) (w : Release)
  deriving DecidableEq, Repr

def Event.registration : Event → Option Registration
  | .turnState id scope i e v now ttl => some (registerTurnState id scope i e v now ttl)
  | .previousResponseId id scope i e v now ttl n f =>
    some (registerPreviousResponseId id scope i e v now ttl n f)
  | _ => none

section
variable {H : Type} [DecidableEq H] (hash : String → H)

namespace Store

def start : Store H := ⟨Dict.empty,Dict.empty,0⟩

variable (s : Store H)

def findByKey (key : SessionKey H) : Option (ℕ × Session H) :=
  s.sessions.rows.find? fun q => q.2.key = key

def clearAliasesForSession (id : ℕ) : Dict (AliasKey H) Alias :=
  s.aliases.filter fun _ a => a.sessionId ≠ id

def setRecord (id : ℕ) (x : Session H) (r : Record) : Store H :=
  {s with sessions := s.sessions.set id {x with record := r}}

def grant (id : ℕ) (x : Session H) (c : Claim) : Store H := {s with
  sessions := s.sessions.set id {x with
    record := c.grant x.record
    tenure := if c.accountChanged x.record then x.tenure+1 else x.tenure}
  aliases := if c.accountChanged x.record then s.clearAliasesForSession id else s.aliases}

def claimLiveSession (key : SessionKey H) (c : Claim) : Store H :=
  match s.findByKey key with
  | none => {s with
      sessions := s.sessions.set s.nextId ⟨key,c.create,0⟩
      nextId := s.nextId+1}
  | some (id,x) => if c.refused x.record then s else s.grant id x c

def bindingOf (x : Session H) (caller : Option (String × ℕ)) : Binding :=
  ⟨caller,x.record.ownerInstanceId,x.record.ownerEpoch,x.record.accountId,x.tenure⟩

def upsertAlias (key : AliasKey H) (id : ℕ) (value : String) (now : ℤ) (b : Binding) : Store H :=
  {s with aliases := s.aliases.set key ⟨id,value,now,b⟩}

def aliasKey (r : Registration) : AliasKey H := ⟨r.kind,hash r.value,r.scope⟩

/-- `renew_session` as one transaction. -/
def renewSession (id : ℕ) (w : Renewal) : Store H :=
  match s.sessions.get? id with
  | none => s
  | some x =>
    if x.record.ownedBy w.instanceId w.ownerEpoch then
      s.setRecord id x (x.record.flush (w.apply x.record) x.record)
    else s

def releaseSession (id : ℕ) (w : Release) : Store H :=
  match s.sessions.get? id with
  | none => s
  | some x =>
    if x.record.ownedBy w.instanceId w.ownerEpoch then
      s.setRecord id x (x.record.flush (w.apply x.record) x.record)
    else s

def register (r : Registration) : Store H :=
  match s.sessions.get? r.sessionId with
  | none => s
  | some x =>
    (s.upsertAlias (aliasKey hash r) r.sessionId r.value r.renewal.now
      (bindingOf x (some (r.renewal.instanceId,r.renewal.ownerEpoch)))).renewSession
        r.sessionId r.renewal

def registerSessionHeader (id : ℕ) (scope header : String) (now : ℤ) : Store H :=
  match s.sessions.get? id with
  | none => s
  | some x => s.upsertAlias ⟨.sessionHeader,hash header,scope⟩ id header now (bindingOf x none)

/-- `resolve_alias` joins the alias with its session. -/
def resolveAlias (key : AliasKey H) : Option (Session H) :=
  (s.aliases.get? key).bind fun a => s.sessions.get? a.sessionId

end Store

def step (s : Store H) : Event → Store H
  | .claim kind value scope c => s.claimLiveSession ⟨kind,hash value,scope⟩ c
  | .turnState id scope i e v now ttl =>
    s.register hash (registerTurnState id scope i e v now ttl)
  | .previousResponseId id scope i e v now ttl n f =>
    s.register hash (registerPreviousResponseId id scope i e v now ttl n f)
  | .sessionHeader id scope header now => s.registerSessionHeader hash id scope header now
  | .renew id w => s.renewSession id w
  | .release id w => s.releaseSession id w

end

section
variable {H : Type}

/-- A registration for a session is made by its owner. -/
def Registers (s : Store H) (e : Event) : Prop :=
  ∀ r ∈ e.registration, ∀ x ∈ s.sessions.get? r.sessionId,
    x.record.ownedBy r.renewal.instanceId r.renewal.ownerEpoch = true

instance (s : Store H) (e : Event) : Decidable (Registers s e) := by
  unfold Registers
  infer_instance

/-- The caller owned the session when it wrote the alias. -/
def Binding.ByOwner (b : Binding) : Prop :=
  ∃ i e, b.caller = some (i,e) ∧ b.rowOwner = some i ∧ b.rowEpoch = e

/-- The alias was written after the last claim that changed the account. -/
def Binding.Present (b : Binding) (x : Session H) : Prop :=
  b.account = x.record.accountId ∧ b.tenure = x.tenure

variable {x : Session H}

theorem byOwner_bindingOf {i : String} {e : ℕ} (h : x.record.ownedBy i e = true) :
    (Store.bindingOf x (some (i,e))).ByOwner :=
  ⟨i,e,rfl,ownedBy_iff.mp h⟩

variable [DecidableEq H] {hash : String → H} {s : Store H}

/-- Every alias leads to a session and was written in its present tenure, by an
owner if its kind asks for one. -/
structure Sound (s : Store H) : Prop where
  created : ∀ id x, s.sessions.get? id = some x → id < s.nextId
  owned : ∀ key a, s.aliases.get? key = some a → key.kind ≠ .sessionHeader → a.binding.ByOwner
  present : ∀ key a, s.aliases.get? key = some a →
    ∃ x, s.sessions.get? a.sessionId = some x ∧ a.binding.Present x

variable {id : ℕ}

variable (h : Sound s)
include h

theorem Sound.replace {y : Session H} (hx : s.sessions.get? id = some x)
    (ha : x.record.accountId = y.record.accountId) (ht : x.tenure = y.tenure) :
    Sound {s with sessions := s.sessions.set id y} := by
  refine ⟨?_,h.owned,?_⟩
  · intro j z hz
    simp only [Dict.get?_set] at hz
    split_ifs at hz with hj
    · exact hj ▸ h.created id x hx
    · exact h.created j z hz
  · intro key a hkey
    obtain ⟨z,hz,hacc,hten⟩ := h.present key a hkey
    simp only [Dict.get?_set]
    split_ifs with hid
    · rw [hid,hx] at hz
      cases hz
      exact ⟨y,rfl,hacc.trans ha,hten.trans ht⟩
    · exact ⟨z,hz,hacc,hten⟩

theorem Sound.renewSession (id : ℕ) (w : Renewal) : Sound (s.renewSession id w) := by
  unfold Store.renewSession
  split
  · exact h
  · rename_i x hx
    split_ifs
    · rw [flush_read]
      exact h.replace hx rfl rfl
    · exact h

theorem Sound.releaseSession (id : ℕ) (w : Release) : Sound (s.releaseSession id w) := by
  unfold Store.releaseSession
  split
  · exact h
  · rename_i x hx
    split_ifs
    · rw [flush_read]
      exact h.replace hx rfl rfl
    · exact h

theorem Sound.upsertAlias {key : AliasKey H} {value : String} {now : ℤ}
    {caller : Option (String × ℕ)} (hx : s.sessions.get? id = some x)
    (hb : key.kind ≠ .sessionHeader → (Store.bindingOf x caller).ByOwner) :
    Sound (s.upsertAlias key id value now (Store.bindingOf x caller)) := by
  refine ⟨h.created,fun k a hk hkind => ?_,fun k a hk => ?_⟩
  · simp only [Store.upsertAlias,Dict.get?_set] at hk
    split_ifs at hk with hkey
    · cases hk
      exact hb (hkey ▸ hkind)
    · exact h.owned k a hk hkind
  · simp only [Store.upsertAlias,Dict.get?_set] at hk
    split_ifs at hk with hkey
    · cases hk
      exact ⟨x,hx,rfl,rfl⟩
    · exact h.present k a hk

variable {r : Registration}

theorem Sound.register (hg : ∀ x ∈ s.sessions.get? r.sessionId,
      x.record.ownedBy r.renewal.instanceId r.renewal.ownerEpoch = true) :
    Sound (s.register hash r) := by
  unfold Store.register
  split
  · exact h
  · rename_i x hx
    exact (h.upsertAlias hx fun _ => byOwner_bindingOf (hg x hx)).renewSession _ _

theorem Sound.registerSessionHeader (id : ℕ) (scope header : String) (now : ℤ) :
    Sound (s.registerSessionHeader hash id scope header now) := by
  unfold Store.registerSessionHeader
  split
  · exact h
  · rename_i x hx
    exact h.upsertAlias hx fun hk => absurd rfl hk

/-- A claim that changes the account starts a tenure without aliases. -/
theorem Sound.grant (hx : s.sessions.get? id = some x) (c : Claim) : Sound (s.grant id x c) := by
  unfold Store.grant
  by_cases hc : c.accountChanged x.record = true
  · simp only [hc,if_true]
    refine ⟨?_,?_,?_⟩
    · intro j z hz
      simp only [Dict.get?_set] at hz
      split_ifs at hz with hj
      · exact hj ▸ h.created id x hx
      · exact h.created j z hz
    · exact fun key a hkey => h.owned key a (Dict.get?_filter.mp hkey).1
    · intro key a hkey
      obtain ⟨hold,hne⟩ := Dict.get?_filter.mp hkey
      obtain ⟨z,hz,hpresent⟩ := h.present key a hold
      refine ⟨z,?_,hpresent⟩
      rw [Dict.get?_set,if_neg (by simpa using hne)]
      exact hz
  · have hsame : x.record.accountId = c.accountId := by simpa [Claim.accountChanged] using hc
    simp only [hc]
    exact h.replace hx hsame rfl

theorem Sound.claimLiveSession (key : SessionKey H) (c : Claim) :
    Sound (s.claimLiveSession key c) := by
  unfold Store.claimLiveSession
  split
  · refine ⟨?_,h.owned,?_⟩
    · intro j z hz
      simp only [Dict.get?_set] at hz
      split_ifs at hz with hj
      · rw [hj]
        exact Nat.lt_succ_self _
      · exact (h.created j z hz).trans (Nat.lt_succ_self _)
    · intro k a hk
      obtain ⟨z,hz,hpresent⟩ := h.present k a hk
      have hlt := h.created a.sessionId z hz
      refine ⟨z,?_,hpresent⟩
      rw [Dict.get?_set,if_neg (by omega)]
      exact hz
  · rename_i id x hfind
    split_ifs
    · exact h
    · exact h.grant (Dict.get?_eq_some.mpr (List.mem_of_find?_eq_some hfind)) c

variable {e : Event}

theorem step_sound (hg : Registers s e) : Sound (step hash s e) := by
  cases e with
  | claim kind value scope c => exact h.claimLiveSession _ c
  | turnState id scope i e v now ttl | previousResponseId id scope i e v now ttl n f =>
    exact h.register (hg _ rfl)
  | sessionHeader id scope header now => exact h.registerSessionHeader id scope header now
  | renew id w => exact h.renewSession id w
  | release id w => exact h.releaseSession id w

omit h

/-- The upsert is committed before the owner is checked. -/
theorem register_unowned (hx : s.sessions.get? r.sessionId = some x)
    (hun : x.record.ownedBy r.renewal.instanceId r.renewal.ownerEpoch = false) :
    s.register hash r = s.upsertAlias (Store.aliasKey hash r) r.sessionId r.value r.renewal.now
      (Store.bindingOf x (some (r.renewal.instanceId,r.renewal.ownerEpoch))) := by
  simp only [Store.register,hx,Store.upsertAlias,Store.renewSession,hun,Bool.false_eq_true,if_false]

theorem step_registration (h : e.registration = some r) : step hash s e = s.register hash r := by
  cases e <;> cases h <;> rfl

def next (hash : String → H) (s : Store H) (e : Event) : Option (Store H) := some (step hash s e)

theorem run_sound {es : List Event}
    (h : Run (restrict (Steps (next hash)) Registers) Store.start es s) : Sound s := by
  refine h.invariant (I := Sound) ?_ ⟨fun _ _ hx => Dict.not_mem_empty hx,
    fun _ _ hk => Dict.not_mem_empty hk,fun _ _ hk => Dict.not_mem_empty hk⟩
  rintro _ e _ hi ⟨hg,hs⟩
  cases hs
  exact step_sound hi hg

/-- Turn states and response identifiers were written by an owner, and an alias leads
only to a session whose account has not changed since it was written. In any state
a registration without ownership leaves the session rows alone but writes the alias. -/
theorem aliases_bound_by_owner {es : List Event}
    (h : Run (restrict (Steps (next hash)) Registers) Store.start es s) :
    (∀ key a, s.aliases.get? key = some a → key.kind ≠ .sessionHeader → a.binding.ByOwner) ∧
      (∀ key a x, s.aliases.get? key = some a → s.resolveAlias key = some x →
        a.binding.account = x.record.accountId ∧ a.binding.tenure = x.tenure) ∧
      (∀ (u : Store H) e r x, e.registration = some r → u.sessions.get? r.sessionId = some x →
        x.record.ownedBy r.renewal.instanceId r.renewal.ownerEpoch = false →
        (step hash u e).sessions = u.sessions ∧
          ((step hash u e).aliases.get? (Store.aliasKey hash r)).map
            (fun a => (a.sessionId,a.value,a.updatedAt)) =
              some (r.sessionId,r.value,r.renewal.now)) := by
  have hsound := run_sound h
  refine ⟨hsound.owned,?_,?_⟩
  · intro key a x hkey hres
    obtain ⟨z,hz,hpresent⟩ := hsound.present key a hkey
    simp only [Store.resolveAlias,hkey,Option.bind_some,hz,Option.some.injEq] at hres
    subst hres
    exact hpresent
  · intro u e r x hr hx hun
    rw [step_registration hr,register_unowned hx hun]
    refine ⟨rfl,?_⟩
    rw [Store.upsertAlias,Dict.get?_set,if_pos rfl]
    rfl

end

def takeover (instanceId account : String) : Event :=
  .claim "session_header" "s" "scope" ⟨instanceId,0,60000000,some account,none,none,none,none,true⟩

def registerResponse (instanceId : String) (ownerEpoch : ℕ) : Event :=
  .previousResponseId 0 "scope" instanceId ownerEpoch "resp" 1 60000000 none none

def responseKey : AliasKey String := ⟨.previousResponseId,"resp","scope"⟩

/-- Two owners register the same response, each during its own lease. -/
def ownersEvents : List Event :=
  [takeover "a" "first",registerResponse "a" 1,takeover "b" "second",registerResponse "b" 2]

theorem owners_bind_alias :
    ∃ s, Run (restrict (Steps (next id)) Registers) Store.start ownersEvents s ∧
      (∃ a, s.aliases.get? responseKey = some a ∧ a.binding.ByOwner) ∧
      (step id s (registerResponse "a" 1)).sessions = s.sessions := by
  refine exists_run_with (p := fun s => (s.aliases.get? responseKey).isSome = true ∧
    (s.sessions.get? 0).any (fun x => x.record.ownedBy "a" 1 = false)) ?_ (by decide +kernel)
  rintro s hrun ⟨halias,hun⟩
  obtain ⟨a,ha⟩ := Option.isSome_iff_exists.mp halias
  obtain ⟨x,hx,hown⟩ := (Option.any_eq_true _ _).mp hun
  have hstale : x.record.ownedBy "a" 1 = false := by simpa using hown
  obtain ⟨howner,_,hkept⟩ := aliases_bound_by_owner hrun
  exact ⟨⟨a,ha,howner responseKey a ha (by decide)⟩,
    (hkept s (registerResponse "a" 1) _ x rfl hx hstale).1⟩

/-- The first owner registers its response once more after the second instance
has taken the session over with another account. -/
def lateEvents : List Event :=
  [takeover "a" "first",registerResponse "a" 1,takeover "b" "second",registerResponse "a" 1]

theorem late_registration_binds_alias : ∃ s, Run (Steps (next id)) Store.start lateEvents s ∧
      (s.aliases.get? responseKey).map (·.binding) =
        some ⟨some ("a",1),some "b",2,some "second",1⟩ ∧
      (s.resolveAlias responseKey).map (fun x => x.record.accountId) = some (some "second") :=
  exists_steps_of_exec (by decide +kernel)

end CodexLb.DurableBridge.Aliases
