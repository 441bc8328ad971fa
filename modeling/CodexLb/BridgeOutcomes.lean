import CodexLb.BridgeLookup

/-!
# The outcomes of the stages of a lookup

What the alias lookup found and did, which awaits the end of the locked block
leads to, and what a call does when it has closed what it took out.
-/
namespace CodexLb.Bridge

def AliasResult.registry : AliasResult → Registry
  | .proceed r _ | .again r _ => r

section
variable (env : Env) (c : Call) (key : SessionKey) (now : ℤ) (l : Locals) (r : Registry)

inductive AliasStep : AliasResult → Prop
  | keeps : AliasStep (.proceed r (.start key false false))
  | follows {turnState : String} {aliasKey : SessionKey} {sid : ℕ} {s : Session}
      (hindex : r.turnStateIndex.get? (turnState,c.apiKeyId) = some aliasKey)
      (hsession : r.session? aliasKey = some (sid,s)) :
      AliasStep (.proceed (promoteAndIndex env r sid turnState) (.start s.key false false))
  | forgets {turnState : String} :
      AliasStep (.proceed (r.popTurnState (turnState,c.apiKeyId))
        (.start (.make "turn_state_header" turnState c.apiKeyId) false false))
  | previous {turnState response : String} {previousKey : SessionKey} {sid : ℕ} {s : Session}
      (hindex : r.previousResponseIndex.get? (env.strip response,c.apiKeyId) = some previousKey)
      (hsession : r.session? previousKey = some (sid,s)) :
      AliasStep (.again (promoteAndIndex env r sid turnState) s.key)
  | without {turnState : String} {q : Registry} {k : SessionKey} {missing fallback : Bool}
      (hturn : c.incomingTurnState = some turnState) (hown : c.forwardedAffinity = false)
      (hgenerated : startsWithHttpTurn turnState = true)
      (hindex : r.turnStateIndex.get? (turnState,c.apiKeyId) = none)
      (hq : q = r ∨ ∃ a, q = r.popPreviousResponse a) (hk : k.apiKeyId = c.apiKeyId)
      (hmissing : missing = true → c.incomingSessionKey = none) :
      AliasStep (.proceed q (.start k missing fallback))

/-- The previous response is not asked for or leads nowhere, its entry is forgotten, or
its session is found, promoted if the request has a turn state, and marked as used. -/
inductive PreviousStep (slots : Dict SessionKey ℕ) : Registry × Phase → Prop
  | continues : PreviousStep slots (r,continuityOrCapacity c l r)
  | forgets {a : AliasKey} : PreviousStep slots
      (r.popPreviousResponse a,continuityOrCapacity c l (r.popPreviousResponse a))
  | finds {response : String} {previousKey : SessionKey} {sid : ℕ} {s : Session} {q p : Registry}
      {found : Locals} {next : Phase} (hresponse : c.previousResponseId = some response)
      (hindex : r.previousResponseIndex.get? (env.strip response,c.apiKeyId) = some previousKey)
      (hsession : r.session? previousKey = some (sid,s))
      (hq : q = r ∨ ∃ turnState, q = promoteAndIndex env r sid turnState)
      (hfound : found = {l with
        key := s.key
        existing := some sid
        inflightFuture := slots.get? previousKey})
      (hnext : found.inflightFuture = none ∧ p = q.modify sid (fun s => {s with lastUsedAt := now}) ∧
          next = .refreshing found sid ∨
        found.inflightFuture ≠ none ∧ p = q ∧ next = continuityOrCapacity c found q) :
      PreviousStep slots (p,next)

end

section
variable {env : Env} {c : Call} {key : SessionKey} {r q : Registry} {turnState : String}

theorem withoutAlias_aliasStep (hturn : c.incomingTurnState = some turnState)
    (hown : c.forwardedAffinity = false) (hgenerated : startsWithHttpTurn turnState = true)
    (hindex : r.turnStateIndex.get? (turnState,c.apiKeyId) = none)
    (hq : q = r ∨ ∃ a, q = r.popPreviousResponse a) :
    AliasStep env c key r (withoutAlias c turnState q) := by
  unfold withoutAlias
  split
  · exact .without hturn hown hgenerated hindex hq rfl nofun
  · rename_i hsession
    exact .without hturn hown hgenerated hindex hq rfl fun _ => hsession

theorem followPreviousResponse_aliasStep (hturn : c.incomingTurnState = some turnState)
    (hown : c.forwardedAffinity = false) (hgenerated : startsWithHttpTurn turnState = true)
    (hindex : r.turnStateIndex.get? (turnState,c.apiKeyId) = none) :
    AliasStep env c key r (followPreviousResponse env c turnState r) := by
  have hwithout : ∀ {q : Registry}, (q = r ∨ ∃ a, q = r.popPreviousResponse a) →
      AliasStep env c key r (withoutAlias c turnState q) :=
    withoutAlias_aliasStep hturn hown hgenerated hindex
  unfold followPreviousResponse
  split
  · exact hwithout (.inl rfl)
  · simp only []
    split
    · exact hwithout (.inl rfl)
    · rename_i hprevious
      split
      · rename_i hs
        split_ifs
        · exact .previous hprevious hs
        · exact hwithout (.inr ⟨_,rfl⟩)
      · exact hwithout (.inr ⟨_,rfl⟩)

theorem resolveAlias_aliasStep (env : Env) (c : Call) (key : SessionKey) (r : Registry) :
    AliasStep env c key r (resolveAlias env c key r) := by
  unfold resolveAlias
  split
  · exact .keeps
  · rename_i turnState hturn
    split
    · exact .keeps
    · rename_i hown
      rw [Bool.or_eq_true,not_or,Bool.not_eq_true] at hown
      split
      · rename_i aliasKey hindex
        unfold followAlias
        split
        · rename_i hs
          split_ifs
          · exact .follows hindex hs
          · exact .forgets
        · exact .forgets
      · rename_i hindex
        split_ifs with hgenerated
        · exact followPreviousResponse_aliasStep hturn hown.1 hgenerated hindex
        · exact .keeps

theorem lookupPrevious_previousStep (env : Env) (c : Call) (now : ℤ) (l : Locals)
    (slots : Dict SessionKey ℕ) (r : Registry) :
    PreviousStep env c now l r slots (lookupPrevious env c now l slots r) := by
  unfold lookupPrevious
  split
  · exact .continues
  · rename_i response hresponse
    split_ifs
    · exact .continues
    · simp only []
      split
      · exact .continues
      · rename_i hindex
        split
        · exact .forgets
        · rename_i sid s hs
          split_ifs with _ hfuture
          · refine .finds hresponse hindex hs ?_ rfl (.inl ⟨hfuture,rfl,rfl⟩)
            cases c.incomingTurnState <;> simp
          · refine .finds hresponse hindex hs ?_ rfl (.inr ⟨hfuture,rfl,rfl⟩)
            cases c.incomingTurnState <;> simp
          · exact .forgets

end

theorem continuityOrCapacity_cases (c : Call) (l : Locals) (r : Registry) :
    continuityOrCapacity c l r = .evicting l ∨ ∃ error, continuityOrCapacity c l r =
      .closing {l with continuityError := error} l.sessionsToClose .turnStates := by
  unfold continuityOrCapacity
  split_ifs
  · exact .inr ⟨_,rfl⟩
  · split
    · exact .inr ⟨l.continuityError,rfl⟩
    · split_ifs
      · exact .inr ⟨_,rfl⟩
      · exact .inr ⟨_,rfl⟩
      · exact .inr ⟨l.continuityError,rfl⟩
  · exact .inl rfl
  · exact .inr ⟨l.continuityError,rfl⟩

theorem lookupPrevious_cases (env : Env) (c : Call) (now : ℤ) (l : Locals)
    (slots : Dict SessionKey ℕ) (r : Registry) : ∃ l', l'.sessionsToClose = l.sessionsToClose ∧
      ((∃ sid, (lookupPrevious env c now l slots r).2 = .refreshing l' sid) ∨
        (lookupPrevious env c now l slots r).2 = .evicting l' ∨
        (lookupPrevious env c now l slots r).2 = .closing l' l'.sessionsToClose .turnStates) := by
  have hgoes : ∀ l' r', l'.sessionsToClose = l.sessionsToClose →
      ∃ l'', l''.sessionsToClose = l.sessionsToClose ∧
        ((∃ sid, continuityOrCapacity c l' r' = .refreshing l'' sid) ∨
          continuityOrCapacity c l' r' = .evicting l'' ∨
          continuityOrCapacity c l' r' = .closing l'' l''.sessionsToClose .turnStates) := by
    intro l' r' hl'
    rcases continuityOrCapacity_cases c l' r' with h | ⟨error,h⟩
    · exact ⟨l',hl',.inr (.inl h)⟩
    · exact ⟨{l' with continuityError := error},hl',.inr (.inr h)⟩
  have hstep := lookupPrevious_previousStep env c now l slots r
  generalize lookupPrevious env c now l slots r = out at hstep ⊢
  cases hstep with
  | continues | forgets => exact hgoes l _ rfl
  | finds _ _ _ _ hfound hnext =>
    rcases hnext with ⟨-,-,rfl⟩ | ⟨-,-,rfl⟩
    · exact ⟨_,by rw [hfound],.inl ⟨_,rfl⟩⟩
    · exact hgoes _ _ (by rw [hfound])

theorem dispatch_cases (r : Registry) (l : Locals) :
    (∃ sid accountId, l.sessionToReturnAfterClose = some sid ∧
      dispatch r l = .returned sid accountId) ∨
    l.sessionToReturnAfterClose = none ∧
      ((∃ forward, dispatch r l = .forwarded forward) ∨ (∃ exc, dispatch r l = .raised exc) ∨
        (∃ f, dispatch r l = .waitingCapacity l f) ∨ (∃ f, dispatch r l = .waitingInflight l f) ∨
        dispatch r l = .creating l) := by
  unfold dispatch
  split
  · rename_i hret
    exact .inl ⟨_,_,hret,rfl⟩
  · rename_i hret _
    exact .inr ⟨hret,.inl ⟨_,rfl⟩⟩
  · rename_i hret _ _
    exact .inr ⟨hret,.inr (.inl ⟨_,rfl⟩)⟩
  · rename_i hret _ _
    refine .inr ⟨hret,?_⟩
    split
    · exact .inr (.inr (.inl ⟨_,rfl⟩))
    · split_ifs
      · exact .inr (.inr (.inr (.inr rfl)))
      · exact .inr (.inr (.inr (.inl ⟨_,rfl⟩)))
    · exact .inr (.inr (.inr (.inr rfl)))

end CodexLb.Bridge
