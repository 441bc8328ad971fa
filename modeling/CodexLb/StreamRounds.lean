import CodexLb.StreamTrace

/-!
# The outcome a stream surfaces

The lines a run passes on end in exactly one terminal event, or an exception
leaves the generator. The attempt that follows a forced refresh runs inside an
exception handler, so none of the handlers of the loop sees what it raises; the
condition is about what reaches that attempt.
-/
namespace CodexLb.Streams

/-- The generator ended with one terminal event, or it raised. -/
def OneOutcome (cfg : Config) (ls : List Line) : Option Exc → Prop
  | none => Finished ls
  | some x => (∃ e, x = .failure (.proxy e)) ∧ cfg.propagateHttpErrors = true ∧ Unfinished ls

structure Surfaces (cfg : Config) (run : Run) : Prop where
  noReplay : NoReplay run.acts
  outcome : OneOutcome cfg (yields run.acts) run.exc

section Rounds
variable {cfg : Config}

/-- What may reach the attempt after a forced refresh. It must not start with
a failed or error event. The client may time out only before the first line.
A proxy error must be one that is rewritten, or one the caller asked for. -/
def PostRefreshSafe (cfg : Config) (run : UpstreamRun) : Prop :=
  (∀ l, run.lines.head? = some l → l.parsed = true → l.type ≠ .failed ∧ l.type ≠ .error) ∧
  match run.raises with
  | none => True
  | some (.client _) => run.lines = []
  | some (.proxy e) => cfg.propagateHttpErrors = true ∨
      (rewritePreviousResponseStreamError cfg.env cfg.previousResponseId none
        (errorCode cfg.env e.error) e.error).isSome = true
  | some .other => False

def Round.ForcedRefreshSafe (cfg : Config) (r : Round) : Prop :=
  r.budgetBeforeForcedRefresh = true →
  match r.forcedRefresh with
  | .failure (.proxy _) => cfg.propagateHttpErrors = true
  | .failure .other => False
  | .ok => r.budgetBeforeSecond = true → PostRefreshSafe cfg r.second
  | _ => True

def Round.unauthorized (cfg : Config) (r : Round) (account : String) (candidates : ℕ) : Bool :=
  match transientLoop cfg account candidates r.tries (maxTransientSameAccountRetries-1) 0 with
  | .raised _ (.failure (.proxy e)) => e.statusCode = 401
  | _ => false

def Round.AccountSafe (cfg : Config) (candidates : ℕ) (r : Round) (account : String) : Prop :=
  r.budgetBeforeRefresh = true → r.refresh = .ok → r.budgetBeforeAttempt = true →
    r.unauthorized cfg account candidates = true → r.ForcedRefreshSafe cfg

def Round.Safe (cfg : Config) (candidates : ℕ) (r : Round) : Prop :=
  r.budget = true →
  match r.selection with
  | .crashed => False
  | .account id => (cfg.owner = none ∨ cfg.preferredAccountId = some id) →
      r.AccountSafe cfg candidates id
  | _ => True

def Round.WellFormed (r : Round) : Prop :=
  (∀ i, (r.tries i).run.WellFormed) ∧ r.second.WellFormed

variable {e : ProxyResponseError}

theorem raisedBy_proxy {q : Request} {f : Flags} : raisedBy q f (some (.proxy e)) =
      if (rewritePreviousResponseStreamError q.env q.previousResponseId f.preferredAccountId
        (errorCode q.env e.error) e.error).isSome then none else some (.failure (.proxy e)) := by
  simp only [raisedBy,raisedAttempt]
  split
  · rename_i h
    simp [h]
  · rename_i h
    simp [h]

/-- The condition when no line is held back and the client's exception is not
caught before the first line. -/
theorem postRefreshSafe_raises {lines : List Line} {raises : Option Failure}
    (hclient : ∀ m, raises = some (.client m) → lines ≠ [])
    (hfirst : ∀ l, lines.head? = some l → l.parsed = true → l.type ≠ .failed ∧ l.type ≠ .error) :
    PostRefreshSafe cfg ⟨lines,raises⟩ ↔
      ∀ exc, raisedBy cfg.toRequest ⟨false,false,none⟩ raises = some exc →
        (∃ e, exc = .failure (.proxy e)) ∧ cfg.propagateHttpErrors = true := by
  unfold PostRefreshSafe
  rw [and_iff_right hfirst]
  cases raises with
  | none => simp [raisedBy]
  | some g =>
    cases g with
    | client m => simp [raisedBy,raisedAttempt,hclient m rfl]
    | other => simp [raisedBy,raisedAttempt]
    | proxy e =>
      rw [raisedBy_proxy]
      split_ifs with hrewritten
      · simp [hrewritten]
      · simp [hrewritten]

variable {run : UpstreamRun}

/-- The condition is about the input; this is what it is for. -/
theorem postRefreshSafe_iff : PostRefreshSafe cfg run ↔
      ∀ exc, (streamOnce cfg.toRequest ⟨false,false,none⟩ run).raised = some exc →
        (∃ e, exc = .failure (.proxy e)) ∧ cfg.propagateHttpErrors = true := by
  obtain ⟨lines,raises⟩ := run
  cases lines with
  | nil =>
    cases raises with
    | none => simp [PostRefreshSafe,streamOnce]
    | some g =>
      cases g with
      | client m => simp [PostRefreshSafe,streamOnce]
      | proxy e =>
        rw [postRefreshSafe_raises (by simp) (by simp),← raisedAttempt_raised]
        rfl
      | other => simp [PostRefreshSafe,streamOnce,raisedAttempt]
  | cons l ls =>
    simp only [streamOnce]
    by_cases hfail : l.parsed = true ∧ (l.type = .failed ∨ l.type = .error)
    · refine iff_of_false ?_ ?_
      · intro hsafe
        obtain ⟨hnf,hne⟩ := hsafe.1 l rfl hfail.1
        exact hfail.2.elim hnf hne
      · rcases readFirst_failure cfg.toRequest ⟨false,false,none⟩ _ hfail.1 hfail.2 with
          ⟨exc,_,_,hflags⟩ | ⟨p',k,c,he,_⟩
        · simp at hflags
        · rw [he]
          simp
    · have hl : l.parsed = true → l.type ≠ .failed ∧ l.type ≠ .error := by
        intro hparsed
        exact ⟨fun h => hfail ⟨hparsed,Or.inl h⟩,fun h => hfail ⟨hparsed,Or.inr h⟩⟩
      obtain ⟨p',he,_⟩ := readFirst_ok cfg.toRequest ⟨false,false,none⟩
        (p := ⟨true,none,cfg.requestId,l.serviceTier.orElse fun _ => cfg.serviceTier,false,false,
          false,none⟩) ⟨rfl,rfl⟩ l hl
      rw [he,postRefreshSafe_raises (by simp) (by simpa using hl)]
      simp only [passOn_raised]

/-- A round that goes on made no output. One that ends the generator has the
intended outcome exactly when the condition holds. -/
def RoundResult.Sound (cfg : Config) (safe : Prop) : RoundResult → Prop
  | .next acts _ => Quiet acts ∧ safe
  | .stop acts exc => ∃ ls ss, Trace cfg acts ls ss ∧ (OneOutcome cfg ls exc ↔ safe)

variable {acts : List Act} {l : Line} {safe : Prop}

theorem RoundResult.Sound.event {ls : List Line} (h : Trace cfg acts ls []) (hls : Unfinished ls)
    (hl : l.type.terminal = true) (hcounts : l.counts = none) (hsafe : safe) :
    (RoundResult.stop (acts++[.yield l]) none).Sound cfg safe :=
  ⟨ls++[l],[],h.event hcounts,iff_of_true (.snoc hls hl) hsafe⟩

theorem unfinished_nil : Unfinished [] := by
  intro k hk
  simp at hk

theorem RoundResult.Sound.quietEvent (h : Quiet acts) (hl : l.type.terminal = true)
    (hcounts : l.counts = none) (hsafe : safe) :
    (RoundResult.stop (acts++[.yield l]) none).Sound cfg safe :=
  RoundResult.Sound.event h.trace unfinished_nil hl hcounts hsafe

theorem oneOutcome_iff_postRefreshSafe {exc : Exc}
    (hraised : (streamOnce cfg.toRequest ⟨false,false,none⟩ run).raised = some exc)
    (ls : List Line) (hls : (∃ e, exc = .failure (.proxy e)) → Unfinished ls) :
    OneOutcome cfg ls (some exc) ↔ PostRefreshSafe cfg run := by
  rw [postRefreshSafe_iff,hraised]
  constructor
  · intro h x hx
    cases hx
    exact ⟨h.1,h.2.1⟩
  · intro h
    obtain ⟨he,hpropagate⟩ := h exc rfl
    exact ⟨he,hpropagate,hls he⟩

variable {account : String}

theorem streamAfterRefresh_sound (hwf : run.WellFormed) (hquiet : Quiet acts) :
    (streamAfterRefresh cfg account acts run).Sound cfg (PostRefreshSafe cfg run) := by
  unfold streamAfterRefresh
  simp only []
  rcases streamOnce_outcome cfg.toRequest ⟨false,false,none⟩ hwf with
    ⟨hraised,hends⟩ | ⟨c,l,hraised,hlines,hl,hcounts⟩ | ⟨exc,hraised,hexc,hlines,hvis⟩ | ⟨g,hb⟩
  · have hsafe : PostRefreshSafe cfg run := by
      rw [postRefreshSafe_iff,hraised]
      simp
    rw [hraised]
    exact ⟨_,_,(Trace.ended account hends).prepend hquiet,iff_of_true hends.finished hsafe⟩
  · have hiff := oneOutcome_iff_postRefreshSafe hraised [l] (by simp)
    have htrace : Trace cfg (attemptActs account _) _ [] := Trace.unsettled account
      (a := streamOnce cfg.toRequest ⟨false,false,none⟩ run) (by simp [hlines,hcounts])
    rw [hlines] at htrace
    rw [hraised]
    exact ⟨[l],[],htrace.prepend hquiet,hiff⟩
  · have hiff := oneOutcome_iff_postRefreshSafe hraised [] (fun _ => unfinished_nil)
    rw [hraised]
    exact ⟨[],[],(hquiet.append (quiet_attemptActs account hlines)).trace,hiff⟩
  · have hiff := oneOutcome_iff_postRefreshSafe hb.raised _ (fun _ => hb.unfinished)
    rw [hb.raised]
    exact ⟨_,[],(Trace.unsettled account (counts_of_unfinished hb.unfinished)).prepend hquiet,hiff⟩

variable {st : RetryState} {r : Round}

theorem handleUnauthorized_sound (hwf : r.second.WellFormed) (hquiet : Quiet acts) :
    (handleUnauthorized cfg account st r acts).Sound cfg (r.ForcedRefreshSafe cfg) := by
  unfold handleUnauthorized Round.ForcedRefreshSafe
  cases hbudget : r.budgetBeforeForcedRefresh with
  | false => exact .quietEvent hquiet rfl rfl (by simp)
  | true =>
    simp only [Bool.not_true,Bool.false_eq_true,if_false,true_imp_iff]
    cases hforced : r.forcedRefresh with
    | refreshError p => exact ⟨hquiet,trivial⟩
    | failure g =>
      cases g with
      | client m => exact .quietEvent hquiet rfl rfl trivial
      | proxy e =>
        exact ⟨[],[],hquiet.trace,fun h => h.2.1,fun h => ⟨⟨e,rfl⟩,h,unfinished_nil⟩⟩
      | other =>
        refine ⟨[],[],hquiet.trace,iff_of_false ?_ id⟩
        intro h
        obtain ⟨e,he⟩ := h.1
        simp at he
    | ok =>
      cases hsecond : r.budgetBeforeSecond with
      | false => exact .quietEvent hquiet rfl rfl (by simp)
      | true =>
        simp only [Bool.not_true,Bool.false_eq_true,if_false,true_imp_iff]
        exact streamAfterRefresh_sound hwf hquiet

theorem handleProxyError_sound (hwf : r.second.WellFormed) (hquiet : Quiet acts) :
    (handleProxyError cfg account st r acts e).Sound cfg
      (e.statusCode = 401 → r.ForcedRefreshSafe cfg) := by
  unfold handleProxyError
  split_ifs with h401 hpropagate
  · rw [show (e.statusCode = 401 → r.ForcedRefreshSafe cfg) = r.ForcedRefreshSafe cfg by simp [h401]]
    exact handleUnauthorized_sound hwf hquiet
  · exact ⟨[],[],hquiet.trace,
      iff_of_true ⟨⟨e,rfl⟩,hpropagate,unfinished_nil⟩ fun h => absurd h h401⟩
  · exact .quietEvent hquiet rfl rfl fun h => absurd h h401

theorem handleRaised_sound (hwf : r.second.WellFormed) (exc : Exc) (h : RaisedSound cfg acts exc) :
    (handleRaised cfg account st r acts exc).Sound cfg
      (∀ e, exc = .failure (.proxy e) → e.statusCode = 401 → r.ForcedRefreshSafe cfg) := by
  cases exc with
  | retryable c m x => exact ⟨h,by simp⟩
  | transient c m => exact h.elim
  | terminal c =>
    obtain ⟨l,ht,hl⟩ := h
    exact ⟨[l],[],ht,iff_of_true (.single hl) (by simp)⟩
  | failure g =>
    cases g with
    | proxy e =>
      have hiff : (∀ e', Exc.failure (.proxy e) = .failure (.proxy e') → e'.statusCode = 401 →
          r.ForcedRefreshSafe cfg) = (e.statusCode = 401 → r.ForcedRefreshSafe cfg) := by
        simp
      rw [hiff]
      exact handleProxyError_sound hwf h
    | client m | other =>
      obtain ⟨ls,ht,hls⟩ := h
      exact .event ht hls rfl rfl (by simp)

theorem RoundResult.Sound.congr {r : RoundResult} {a b : Prop} (h : r.Sound cfg a) (hab : a ↔ b) :
    r.Sound cfg b := propext hab ▸ h

theorem runAccount_sound {candidates : ℕ} (hwf : r.WellFormed) :
    (runAccount cfg account st candidates r).Sound cfg (r.AccountSafe cfg candidates account) := by
  have hquiet : Quiet [] := by simp [Quiet]
  unfold runAccount Round.AccountSafe
  cases hrefresh : r.budgetBeforeRefresh with
  | false => exact .quietEvent hquiet rfl rfl (by simp)
  | true =>
    simp only [Bool.not_true,Bool.false_eq_true,if_false,true_imp_iff]
    cases href : r.refresh with
    | refreshError p => exact ⟨hquiet,by simp⟩
    | failure g =>
      cases g with
      | client m => exact .quietEvent hquiet rfl rfl (by simp)
      | proxy e =>
        refine (handleRaised_sound hwf.2 (.failure (.proxy e)) hquiet).congr ?_
        have h429 := r.admission e href
        refine iff_of_true ?_ (by simp)
        intro e' he h401
        simp only [Exc.failure.injEq,Failure.proxy.injEq] at he
        subst he
        omega
      | other =>
        exact (handleRaised_sound hwf.2 (.failure .other)
          ⟨[],hquiet.trace,unfinished_nil⟩).congr (iff_of_true (by simp) (by simp))
    | ok =>
      cases hattempt : r.budgetBeforeAttempt with
      | false => exact .quietEvent hquiet rfl rfl (by simp)
      | true =>
        have hloop := transientLoop_sound cfg account candidates hwf.1
          (maxTransientSameAccountRetries-1) 0
        unfold Round.unauthorized
        cases hpass : transientLoop cfg account candidates r.tries
          (maxTransientSameAccountRetries-1) 0 with
        | returned acts =>
          rw [hpass] at hloop
          obtain ⟨ls,ss,ht,hls⟩ := hloop
          exact ⟨ls,ss,ht,iff_of_true hls (by simp)⟩
        | failover acts exc =>
          rw [hpass] at hloop
          exact ⟨hloop,by simp⟩
        | raised acts exc =>
          rw [hpass] at hloop
          refine (handleRaised_sound hwf.2 exc hloop).congr ?_
          cases exc with
          | failure g => cases g <;> simp
          | retryable c m x | transient c m | terminal c => simp

theorem giveUp_sound (cfg : Config) (st : RetryState) (code message : String) :
    (giveUp cfg st code message).Sound cfg True := by
  have hquiet : Quiet [] := by simp [Quiet]
  unfold giveUp
  split
  · rename_i hpropagate _
    exact ⟨[],[],hquiet.trace,iff_of_true ⟨⟨_,rfl⟩,hpropagate,unfinished_nil⟩ trivial⟩
  · exact .quietEvent hquiet rfl rfl trivial
  · exact .quietEvent hquiet rfl rfl trivial

theorem runRound_sound (cfg : Config) (st : RetryState) (candidates : ℕ) (hwf : r.WellFormed) :
    (runRound cfg st candidates r).Sound cfg (r.Safe cfg candidates) := by
  have hquiet : Quiet [] := by simp [Quiet]
  unfold runRound Round.Safe
  cases hbudget : r.budget with
  | false => exact .quietEvent hquiet rfl rfl (by simp)
  | true =>
    simp only [Bool.not_true,Bool.false_eq_true,if_false,true_imp_iff]
    cases hsel : r.selection with
    | raised e =>
      refine .quietEvent hquiet ?_ ?_ trivial
      · split_ifs <;> rfl
      · split_ifs <;> rfl
    | crashed =>
      refine ⟨[],[],hquiet.trace,iff_of_false ?_ id⟩
      intro h
      obtain ⟨e,he⟩ := h.1
      simp at he
    | none code message =>
      split_ifs
      · exact .quietEvent hquiet rfl rfl trivial
      · exact giveUp_sound cfg st _ _
    | account id =>
      simp only []
      split_ifs with howner
      · refine .quietEvent hquiet rfl rfl ?_
        simp only [Bool.and_eq_true,decide_eq_true_eq] at howner
        intro h
        rcases h with h | h
        · exact absurd h howner.1
        · exact absurd h howner.2
      · refine (runAccount_sound hwf).congr ?_
        have hmatch : cfg.owner = none ∨ cfg.preferredAccountId = some id := by
          by_contra hno
          rw [not_or] at hno
          exact howner (by simp [hno.1,hno.2])
        simp [hmatch]

def roundsSafe (cfg : Config) : RetryState → List Round → Prop
  | _,[] => True
  | st,r::rs => r.Safe cfg rs.length ∧
      match runRound cfg st rs.length r with
      | .stop _ _ => True
      | .next _ st => roundsSafe cfg st rs

theorem runRounds_sound (st : RetryState) {rs : List Round} (hwf : ∀ r ∈ rs, r.WellFormed) :
    ∃ ls ss, Trace cfg (runRounds cfg st rs).acts ls ss ∧
      (OneOutcome cfg ls (runRounds cfg st rs).exc ↔ roundsSafe cfg st rs) := by
  induction rs generalizing st with
  | nil =>
    have hgive := giveUp_sound cfg st "no_accounts" "No available accounts after retries"
    unfold runRounds
    split
    · rename_i hstop
      rw [hstop] at hgive
      exact hgive
    · rename_i hnext
      unfold giveUp at hnext
      split at hnext <;> simp at hnext
  | cons r rs ih =>
    have hround := runRound_sound cfg st rs.length (hwf r (by simp))
    have hrest := fun st => ih st fun r hr => hwf r (by simp [hr])
    rw [runRounds,roundsSafe]
    cases hresult : runRound cfg st rs.length r with
    | stop acts exc =>
      rw [hresult] at hround
      obtain ⟨ls,ss,ht,hiff⟩ := hround
      exact ⟨ls,ss,ht,hiff.trans (and_iff_left trivial).symm⟩
    | next acts st' =>
      rw [hresult] at hround
      obtain ⟨hquiet,hsafe⟩ := hround
      obtain ⟨ls,ss,ht,hiff⟩ := hrest st'
      exact ⟨ls,ss,ht.prepend hquiet,hiff.trans (and_iff_right hsafe).symm⟩

def Script.WellFormed (s : Script) : Prop := ∀ r ∈ s.rounds, r.WellFormed

/-- A request refused before its first round raises whatever the caller asked
for; otherwise every round that is reached is safe. -/
def Script.Safe (cfg : Config) (s : Script) : Prop :=
  if s.imageReferences = none ∧ s.ownerLookupFailed = none then roundsSafe cfg ⟨none,none⟩ s.rounds
  else cfg.propagateHttpErrors = true

theorem quiet_setup : Quiet [.setup] := by
  intro a h
  rw [List.mem_singleton.mp h]
  rfl

theorem streamWithRetry_sound (cfg : Config) {s : Script} (hwf : s.WellFormed) :
    ∃ ls ss, Trace cfg (streamWithRetry cfg s).acts ls ss ∧
      (OneOutcome cfg ls (streamWithRetry cfg s).exc ↔ s.Safe cfg) := by
  have hrefused : ∀ e, OneOutcome cfg [] (some (.failure (.proxy e))) ↔
      cfg.propagateHttpErrors = true :=
    fun e => ⟨fun h => h.2.1,fun h => ⟨⟨e,rfl⟩,h,unfinished_nil⟩⟩
  unfold streamWithRetry Script.Safe
  cases himage : s.imageReferences with
  | some e => exact ⟨[],[],Quiet.trace (by simp [Quiet]),by simpa using hrefused e⟩
  | none =>
    cases howner : s.ownerLookupFailed with
    | some e => exact ⟨[],[],quiet_setup.trace,by simpa using hrefused e⟩
    | none =>
      obtain ⟨ls,ss,ht,hiff⟩ := runRounds_sound ⟨none,none⟩ hwf
      exact ⟨ls,ss,ht.prepend quiet_setup,by simpa using hiff⟩

/-- Whatever the upstream does, no attempt follows output, and the outcome is
the intended one exactly for safe scripts. -/
theorem surfaces_iff_safe (cfg : Config) (s : Script) (hwf : s.WellFormed) :
    Surfaces cfg (streamWithRetry cfg s) ↔ s.Safe cfg := by
  obtain ⟨ls,ss,ht,hiff⟩ := streamWithRetry_sound cfg hwf
  rw [← hiff]
  constructor
  · intro h
    simpa only [ht.yields_eq] using h.outcome
  · intro h
    exact ⟨ht.noReplay,by simpa only [ht.yields_eq] using h⟩

end Rounds

def plainConfig : Config where
  env := ⟨id,id⟩
  requestId := "req"
  previousResponseId := none
  serviceTier := none
  suppressTextDoneEvents := false
  propagateHttpErrors := false
  deterministicFailoverEnabled := true
  hasReservation := true
  owner := none
  fileAccountId := none

def completedLine : Line :=
  ⟨.completed,true,some "resp",none,none,some ⟨some 7,some 5,some 2⟩,none,false⟩

def refusedThen (second : UpstreamRun) : Round where
  budget := true
  selection := .account "acc"
  budgetBeforeRefresh := true
  refresh := .ok
  admission := by simp
  budgetBeforeAttempt := true
  tries := fun _ => ⟨⟨[],some (.proxy ⟨401,some ⟨some "token_expired",none,none,none⟩⟩)⟩,true⟩
  budgetBeforeForcedRefresh := true
  forcedRefresh := .ok
  budgetBeforeSecond := true
  second := second

def refusedScript (second : UpstreamRun) : Script :=
  ⟨none,none,[refusedThen second,refusedThen second,refusedThen second],rfl⟩

theorem refusedScript_wellFormed {second : UpstreamRun} (h : second.WellFormed) :
    (refusedScript second).WellFormed := by
  intro r hr
  have he : r = refusedThen second := by simpa [refusedScript] using hr
  subst he
  exact ⟨fun _ => Or.inr ⟨by simp [refusedThen],by simp [refusedThen]⟩,h⟩

theorem surfaces_after_refresh :
    Surfaces plainConfig (streamWithRetry plainConfig (refusedScript ⟨[completedLine],none⟩)) := by
  refine (surfaces_iff_safe plainConfig _ (refusedScript_wellFormed ?_)).mpr ⟨?_,?_⟩
  · exact Or.inl ⟨rfl,[],completedLine,rfl,rfl,by simp⟩
  · intro _ _ _ _ _ _ _ _
    refine ⟨?_,trivial⟩
    intro l hl _
    cases hl
    decide
  · simp only [List.length_cons,List.length_nil]
    trivial

/-- The attempt after the refresh starts with a failed event: it is passed on
and then `_TerminalStreamError` leaves the generator. -/
theorem terminal_error_escapes :
    (refusedScript ⟨[serverError "rate_limit_exceeded" "limit" "resp"],none⟩).WellFormed ∧
      (streamWithRetry plainConfig
        (refusedScript ⟨[serverError "rate_limit_exceeded" "limit" "resp"],none⟩)).exc =
          some (.terminal "rate_limit_exceeded") ∧
      ¬ Surfaces plainConfig (streamWithRetry plainConfig
        (refusedScript ⟨[serverError "rate_limit_exceeded" "limit" "resp"],none⟩)) := by
  have hexc : (streamWithRetry plainConfig
      (refusedScript ⟨[serverError "rate_limit_exceeded" "limit" "resp"],none⟩)).exc =
        some (.terminal "rate_limit_exceeded") := by decide
  refine ⟨refusedScript_wellFormed (Or.inl ⟨rfl,[],_,rfl,rfl,by simp⟩),hexc,?_⟩
  intro h
  have hout := h.outcome
  obtain ⟨e,he⟩ := hout.1
  cases he

end CodexLb.Streams
