import CodexLb.StreamRetry

/-!
# The account a stream is opened for

Every attempt of a round is made on the account that was selected for it, also the
one after a forced refresh. A request whose previous response has a known owner
gets no round on another account, so all its attempts are on the owner.
-/
namespace CodexLb.Streams

/-- All attempts are on the account. -/
def On (account : String) (acts : List Act) : Prop := ∀ b, .attempt b ∈ acts → b = account

def Pass.acts : Pass → List Act
  | .returned acts | .failover acts _ | .raised acts _ => acts

def RoundResult.acts : RoundResult → List Act
  | .stop acts _ | .next acts _ => acts

section
variable {account : String} {as bs : List Act}

theorem On.append (ha : On account as) (hb : On account bs) : On account (as++bs) := by
  intro b hb'
  rcases List.mem_append.mp hb' with h | h
  · exact ha b h
  · exact hb b h

theorem on_of_forall (h : ∀ a ∈ as, ∀ b, a ≠ .attempt b) : On account as :=
  fun b hb => absurd rfl (h _ hb b)

theorem on_nil : On account [] := on_of_forall fun _ ha => by cases ha

variable {l : Line}

theorem on_yield : On account [.yield l] :=
  on_of_forall fun a ha b => by rw [List.mem_singleton.mp ha]; simp

variable (cfg : Config)

theorem on_settleActs (s : Settlement) : On account (settleActs cfg s) := by
  refine on_of_forall fun a ha b => ?_
  unfold settleActs at ha
  split_ifs at ha
  · rw [List.mem_singleton.mp ha]
    simp
  · cases ha

variable {a : Attempt}

theorem on_attemptActs : On account (attemptActs account a) := by
  intro b hb
  rcases List.mem_cons.mp hb with hb | hb
  · cases hb
    rfl
  · obtain ⟨l,-,hl⟩ := List.mem_map.mp hb
    cases hl

theorem acts_prepend {p : Pass} : (p.prepend as).acts = as++p.acts := by
  cases p <;> rfl

theorem on_surfaceMidStream : On account (surfaceMidStream cfg account a l).acts :=
  (on_attemptActs).append ((on_yield).append (on_settleActs cfg a.settlement))

theorem on_afterAttempt (n : ℕ) {again : Option ProxyResponseError → Pass}
    (h : ∀ e, On account (again e).acts) :
    On account (afterAttempt cfg account n a again).acts := by
  unfold afterAttempt
  dsimp only
  split
  · exact (on_attemptActs).append (on_settleActs cfg a.settlement)
  · by_cases hvisible : a.settlement.downstreamVisible = true
    · rw [if_pos hvisible]
      exact on_surfaceMidStream _
    · rw [if_neg hvisible]
      exact h none
  · split_ifs
    · exact on_surfaceMidStream _
    · exact h _
    · exact on_attemptActs
    · exact on_attemptActs
    · exact on_attemptActs
  · exact on_attemptActs

theorem on_transientLoop (n : ℕ) (tries : ℕ → Try) (left i : ℕ) :
    On account (transientLoop cfg account n tries left i).acts := by
  induction left generalizing i with
  | zero =>
    exact on_afterAttempt cfg _ fun e => on_attemptActs
  | succ m ih =>
    unfold transientLoop
    refine on_afterAttempt cfg _ fun e => ?_
    split_ifs
    · rw [acts_prepend]
      exact (on_attemptActs).append (ih (i+1))
    · exact on_attemptActs

variable (st : RetryState) (r : Round)

theorem on_streamAfterRefresh (run : UpstreamRun) (h : On account as) :
    On account (streamAfterRefresh cfg account as run).acts := by
  unfold streamAfterRefresh
  dsimp only
  split
  · exact h.append ((on_attemptActs).append (on_settleActs cfg _))
  · exact h.append (on_attemptActs)

theorem on_handleUnauthorized (h : On account as) :
    On account (handleUnauthorized cfg account st r as).acts := by
  unfold handleUnauthorized
  split
  · exact h.append (on_yield)
  · split
    · exact h
    · exact h.append (on_yield)
    · exact h
    · split
      · exact h.append (on_yield)
      · exact on_streamAfterRefresh cfg r.second h

theorem on_handleRaised (h : On account as) (exc : Exc) :
    On account (handleRaised cfg account st r as exc).acts := by
  unfold handleRaised
  split
  · exact h
  · exact h
  · unfold handleProxyError
    split_ifs
    · exact on_handleUnauthorized cfg st r h
    · exact h
    · exact h.append (on_yield)
  · exact h.append (on_yield)

/-- A round works on its account only, also after a forced refresh. -/
theorem on_runAccount (n : ℕ) : On account (runAccount cfg account st n r).acts := by
  unfold runAccount
  split
  · exact on_yield
  · split
    · exact on_nil
    · exact on_yield
    · exact on_handleRaised cfg st r on_nil _
    · split
      · exact on_yield
      · have hloop := @on_transientLoop account cfg n r.tries (maxTransientSameAccountRetries-1) 0
        split
        · rename_i acts he
          rw [he] at hloop
          exact hloop
        · rename_i acts exc he
          rw [he] at hloop
          exact hloop
        · rename_i acts exc he
          rw [he] at hloop
          exact on_handleRaised cfg st r hloop exc

theorem on_giveUp (code message : String) : On account (giveUp cfg st code message).acts := by
  unfold giveUp
  split
  · exact on_nil
  · exact on_yield
  · exact on_yield

variable {cfg}

/-- A round of a request with a known owner is on that owner. -/
theorem on_runRound (howner : cfg.owner = some account) (n : ℕ) :
    On account (runRound cfg st n r).acts := by
  have hpreferred : cfg.preferredAccountId = some account := by
    rw [Config.preferredAccountId,howner,Option.orElse_some]
  unfold runRound
  split
  · exact on_yield
  · split
    · exact on_yield
    · exact on_nil
    · split
      · exact on_yield
      · exact on_giveUp cfg st _ _
    · rename_i id _
      split_ifs with hid
      · exact on_yield
      · have he : id = account := by
          by_contra hne
          refine hid ?_
          simp [howner,hpreferred,Ne.symm hne]
        rw [he]
        exact on_runAccount cfg st r n

theorem on_runRounds (howner : cfg.owner = some account) (rs : List Round) :
    On account (runRounds cfg st rs).acts := by
  induction rs generalizing st with
  | nil =>
    have hgive := @on_giveUp account cfg st "no_accounts" "No available accounts after retries"
    unfold runRounds
    split
    · rename_i he
      rw [he] at hgive
      exact hgive
    · rename_i he
      rw [he] at hgive
      exact hgive
  | cons r rs ih =>
    have hround := on_runRound st r howner rs.length
    unfold runRounds
    split
    · rename_i he
      rw [he] at hround
      exact hround
    · rename_i he
      rw [he] at hround
      exact hround.append (ih _)

theorem on_streamWithRetry (howner : cfg.owner = some account) (s : Script) :
    On account (streamWithRetry cfg s).acts := by
  have hsetup : On account [.setup] := on_of_forall fun a ha b => by
    rw [List.mem_singleton.mp ha]
    simp
  unfold streamWithRetry
  split
  · exact on_nil
  · exact hsetup
  · exact hsetup.append (on_runRounds ⟨none,none⟩ howner s.rounds)

end

end CodexLb.Streams
