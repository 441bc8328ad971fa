import CodexLb.Dict
import CodexLb.PythonText
import CodexLb.Runs

/-!
# One-time codes of the dashboard

`verify_totp` and `disable_totp` read the settings, check the code against the
secret they read, and advance the last verified step by a conditional update.
`disable_totp` then removes the secret; `confirm_totp_setup` writes one if it read
none. A write of the secret forgets the last step, but the flush only writes the
columns that differ from what the call has read. A call that is refused for its
session does not occur here, and secrets are stored as they are.
-/
namespace CodexLb.TotpCodes
open Runs

/-- What the program takes from its libraries: `str.upper`, `str.isdigit`, whether
`b32decode` accepts a text, and the code of a secret at a time. -/
structure Env where
  upper : String → String
  isDigit : Char → Bool
  isBase32 : String → Bool
  codeAt : String → ℤ → String

variable {env : Env}

/-- `_normalize_secret`, with none for an exception. -/
def normalizeSecret (env : Env) (secret : String) : Option String :=
  let compact := env.upper (.ofList (secret.toList.filter fun c => !PythonText.isSpace c))
  if compact = "" then none
  else
    let padding := List.replicate ((8-compact.length%8)%8) '='
    if env.isBase32 (compact++ .ofList padding) then some compact else none

def normalizeCode (env : Env) (code : String) : String := .ofList (code.toList.filter env.isDigit)

/-- The first of the steps that is later than the last one and has the code. Digests
of texts outside ASCII are not compared: the call raises. -/
def matchStep (env : Env) (secret code : String) (last : Option ℤ) : List ℤ → Option ℤ
  | [] => none
  | step::rest =>
    if last.any (step ≤ ·) then matchStep env secret code last rest
    else if code.toList.any (128 ≤ ·.toNat) then none
    else if env.codeAt secret (step*30) = code then some step
    else matchStep env secret code last rest

def verifyTotpCode (env : Env) (secret code : String) (now : ℤ) (last : Option ℤ) : Option ℤ :=
  (normalizeSecret env secret).bind fun secret =>
    if (normalizeCode env code).length ≠ 6 then none
    else matchStep env secret (normalizeCode env code) last [now/30-1,now/30,now/30+1]

def Matches (env : Env) (secret code : String) (step : ℤ) : Prop :=
  ∃ n,normalizeSecret env secret = some n ∧ env.codeAt n (step*30) = normalizeCode env code

variable {secret code : String} {last : Option ℤ}

theorem codeAt_of_matchStep {steps : List ℤ} {step : ℤ}
    (h : matchStep env secret code last steps = some step) :
    env.codeAt secret (step*30) = code := by
  induction steps with
  | nil => cases h
  | cons a rest ih =>
    rw [matchStep] at h
    split_ifs at h with hlast hascii hcode
    · exact ih h
    · cases h
      exact hcode
    · exact ih h

theorem matches_of_verifyTotpCode {now step : ℤ}
    (h : verifyTotpCode env secret code now last = some step) : Matches env secret code step := by
  obtain ⟨n,hn,h⟩ := Option.bind_eq_some_iff.mp h
  split_ifs at h
  exact ⟨n,hn,codeAt_of_matchStep h⟩

inductive Kind where
  | verify | disable

/-- What a call does next: update the step, write the secret, or nothing. A call
that writes the secret has a last step in its object of the row. -/
inductive Phase where
  | matched (kind : Kind) (secret code : String) (step : ℤ)
  | writing (secret : Option String) (held : Option ℤ)
  | ended

/-- The update of the step also sets it in the object. -/
def Kind.next (step : ℤ) : Kind → Phase
  | .verify => .ended
  | .disable => .writing none (some step)

/-- An accepted call with the secret it read, the secret that was stored when its
update committed, and the number of secret writes before it. -/
structure Accepted where
  secret : String
  stored : Option String
  code : String
  step : ℤ
  writes : ℕ

structure State where
  secret : Option String
  lastStep : Option ℤ
  calls : Dict ℕ Phase
  accepted : List Accepted
  writes : ℕ

def start (secret : Option String) (lastStep : Option ℤ) : State := ⟨secret,lastStep,.empty,[],0⟩

inductive Event where
  | check (i : ℕ) (kind : Kind) (code : String) (now : ℤ)
  | confirm (i : ℕ) (secret code : String) (now : ℤ)
  | tryAdvance (i : ℕ)
  | setSecret (i : ℕ)

def State.phase (s : State) (i : ℕ) (p : Phase) : State := {s with calls := s.calls.set i p}

def step (env : Env) (s : State) : Event → Option State
  | .check i kind code now =>
    match s.calls.get? i with
    | some _ => none
    | none =>
      match s.secret with
      | none => some (s.phase i .ended)
      | some secret =>
        match verifyTotpCode env secret code now s.lastStep with
        | some step => some (s.phase i (.matched kind secret code step))
        | none => some (s.phase i .ended)
  | .confirm i secret code now =>
    match s.calls.get? i with
    | some _ => none
    | none =>
      if s.secret = none ∧ (verifyTotpCode env secret code now none).isSome then
        some (s.phase i (.writing (some secret) s.lastStep))
      else some (s.phase i .ended)
  | .tryAdvance i =>
    match s.calls.get? i with
    | some (.matched kind secret code step) =>
      if s.lastStep.all (· < step) then
        some {s.phase i (kind.next step) with
          lastStep := some step
          accepted := ⟨secret,s.secret,code,step,s.writes⟩::s.accepted}
      else some (s.phase i .ended)
    | _ => none
  | .setSecret i =>
    match s.calls.get? i with
    | some (.writing secret held) =>
      some {s.phase i .ended with
        secret := secret
        lastStep := if held = none then s.lastStep else none
        writes := s.writes+1}
    | _ => none

def Phase.isMatched : Phase → Bool
  | .matched .. => true
  | _ => false

/-- The secret is not written while a call is between its check and its update. -/
def Settled (s : State) : Event → Prop
  | .setSecret _ => ∀ q ∈ s.calls.rows,q.2.isMatched = false
  | _ => True

instance (s : State) : DecidablePred (Settled s)
  | .setSecret _ => inferInstanceAs (Decidable (∀ q ∈ s.calls.rows,q.2.isMatched = false))
  | .check .. | .confirm .. | .tryAdvance _ => inferInstanceAs (Decidable True)

/-- The accepted calls since the last write are at or before the last step, and a
call that has checked its code has done so against the secret that is stored. -/
structure Sound (env : Env) (s : State) : Prop where
  increasing : s.accepted.Pairwise fun a b => a.writes = b.writes → b.step < a.step
  counted : ∀ a ∈ s.accepted,a.writes ≤ s.writes
  latest : ∀ a ∈ s.accepted,a.writes = s.writes → ∃ l,s.lastStep = some l ∧ a.step ≤ l
  checked : ∀ i kind secret code step,s.calls.get? i = some (.matched kind secret code step) →
    s.secret = some secret ∧ Matches env secret code step
  bound : ∀ a ∈ s.accepted,a.stored = some a.secret ∧ Matches env a.secret a.code a.step

variable {s t : State}

theorem Sound.phase (h : Sound env s) (i : ℕ) {p : Phase} (hp : ∀ kind secret code step,
    p = .matched kind secret code step → s.secret = some secret ∧ Matches env secret code step) :
    Sound env (s.phase i p) := by
  refine ⟨h.increasing,h.counted,h.latest,fun j kind secret code step hj => ?_,h.bound⟩
  rw [State.phase,Dict.get?_set] at hj
  split_ifs at hj
  · exact hp kind secret code step (Option.some.inj hj)
  · exact h.checked j kind secret code step hj

theorem Sound.accept (h : Sound env s) {step : ℤ} (hsecret : s.secret = some secret)
    (hmatches : Matches env secret code step) (hlast : s.lastStep.all (· < step) = true) :
    Sound env {s with
      lastStep := some step
      accepted := ⟨secret,s.secret,code,step,s.writes⟩::s.accepted} where
  increasing := by
    refine List.pairwise_cons.mpr ⟨fun b hb hwrites => ?_,h.increasing⟩
    obtain ⟨l,hl,hle⟩ := h.latest b hb hwrites.symm
    rw [hl,Option.all_some,decide_eq_true_eq] at hlast
    exact hle.trans_lt hlast
  counted := List.forall_mem_cons.mpr ⟨le_refl _,h.counted⟩
  latest := by
    refine List.forall_mem_cons.mpr ⟨fun _ => ⟨step,rfl,le_refl _⟩,fun a ha hwrites => ?_⟩
    obtain ⟨l,hl,hle⟩ := h.latest a ha hwrites
    rw [hl,Option.all_some,decide_eq_true_eq] at hlast
    exact ⟨step,rfl,hle.trans hlast.le⟩
  checked := h.checked
  bound := List.forall_mem_cons.mpr ⟨⟨hsecret,hmatches⟩,h.bound⟩

theorem Sound.write (h : Sound env s) (secret : Option String) (lastStep : Option ℤ)
    (hsettled : ∀ q ∈ s.calls.rows,q.2.isMatched = false) :
    Sound env {s with secret := secret,lastStep := lastStep,writes := s.writes+1} where
  increasing := h.increasing
  counted a ha := (h.counted a ha).trans (Nat.le_succ _)
  latest a ha hwrites := by
    have hle := h.counted a ha
    change a.writes = s.writes+1 at hwrites
    omega
  checked i kind secret code step hi := nomatch hsettled _ (Dict.get?_eq_some.mp hi)
  bound := h.bound

theorem Sound.step {e : Event} (h : Sound env s) (hsettled : Settled s e)
    (hs : TotpCodes.step env s e = some t) : Sound env t := by
  cases e with
  | check i kind code now =>
    simp only [TotpCodes.step] at hs
    split at hs
    · cases hs
    · split at hs
      · cases hs
        exact h.phase i nofun
      · split at hs
        · next secret hsecret _ step hstep =>
          cases hs
          refine h.phase i fun _ _ _ _ he => ?_
          cases he
          exact ⟨hsecret,matches_of_verifyTotpCode hstep⟩
        · cases hs
          exact h.phase i nofun
  | confirm i secret code now =>
    simp only [TotpCodes.step] at hs
    split at hs
    · cases hs
    · split_ifs at hs
      · cases hs
        exact h.phase i nofun
      · cases hs
        exact h.phase i nofun
  | tryAdvance i =>
    simp only [TotpCodes.step] at hs
    split at hs
    · next kind secret code step hi =>
      obtain ⟨hsecret,hmatches⟩ := h.checked i kind secret code step hi
      split_ifs at hs with hlast
      · cases hs
        exact (h.accept hsecret hmatches hlast).phase i fun _ _ _ _ he => by
          cases kind <;> cases he
      · cases hs
        exact h.phase i nofun
    · cases hs
  | setSecret i =>
    simp only [TotpCodes.step] at hs
    split at hs
    · cases hs
      exact (h.write _ _ hsettled).phase i nofun
    · cases hs

/-- While no secret is written between the check of a call and its update, the
steps accepted between two writes increase strictly, and each accepted code is one
of the secret that was stored when its update committed. -/
theorem accepted_once {secret : Option String} {last : Option ℤ} {es : List Event}
    (h : Run (restrict (Steps (step env)) Settled) (start secret last) es t) :
    (t.accepted.Pairwise fun a b => a.writes = b.writes → b.step < a.step) ∧
      ∀ a ∈ t.accepted,a.stored = some a.secret ∧ Matches env a.secret a.code a.step := by
  have hsound := h.invariant (I := Sound env) (fun _ _ _ hs hst => hs.step hst.1 hst.2)
    ⟨.nil,nofun,nofun,fun _ _ _ _ _ hi => Dict.not_mem_empty hi,nofun⟩
  exact ⟨hsound.increasing,hsound.bound⟩

/-- The twenty digits 12345678901234567890 in base 32. -/
def digitsSecret : String := "GEZDGNBVGY3TQOJQGEZDGNBVGY3TQOJQ"

/-- The codes of this secret at the steps 1 to 3. -/
def digitsEnv : Env where
  upper s := .ofList (s.toList.map Char.toUpper)
  isDigit := Char.isDigit
  isBase32 s := s = digitsSecret
  codeAt _ time :=
    if time = 30 then "287082" else if time = 60 then "359152" else if time = 90 then "969429" else ""

/-- Two calls with the code of step 2, and one with the code of step 3. -/
theorem second_code_refused :
    ∃ t,Run (restrict (Steps (step digitsEnv)) Settled) (start (some digitsSecret) none)
      [.check 0 .verify "359152" 60,.check 1 .verify "359 152" 60,.tryAdvance 0,.tryAdvance 1,
        .check 2 .verify "969429" 70,.tryAdvance 2] t ∧
      t.accepted.map Accepted.step = [3,2] ∧
      t.accepted.Pairwise fun a b => a.writes = b.writes → b.step < a.step :=
  exists_run_with (fun _ hrun hsteps => ⟨hsteps,(accepted_once hrun).1⟩) (by decide +kernel)

/-- The secret is removed between the check of a call and its update; the update
finds no last step and is accepted. -/
theorem removed_secret_accepted :
    ∃ es t,Run (Steps (step digitsEnv)) (start (some digitsSecret) none) es t ∧
      ∃ a ∈ t.accepted,a.stored ≠ some a.secret :=
  ⟨[.check 0 .verify "359152" 60,.check 1 .disable "359152" 60,.tryAdvance 1,.setSecret 1,
    .tryAdvance 0],exists_steps_of_exec (by decide +kernel)⟩

end CodexLb.TotpCodes
