import CodexLb.TrafficPrepare

/-!
# The anchor of a prepared request

The text of a request has the previous response id the request remembers, and the
text kept for a fresh upstream has none: the proxy injects an anchor only into a
request that came without one.
-/
namespace CodexLb.Traffic

section
variable {F : Type} {env : Env F}

/-- The text and the anchor of a request agree, and the text for a fresh upstream
has no anchor. -/
structure Request.Consistent (r : Request F) : Prop where
  text : r.requestText.previousResponseId = r.previousResponseId
  fresh : r.proxyInjectedPreviousResponseId = true → ∀ m, r.freshUpstreamRequestText = some m →
    m.previousResponseId = none

theorem prepareRequest_text (m : Message) (c l : List Item) :
    (prepareRequest env m c l).requestText.previousResponseId = m.previousResponseId := by
  unfold prepareRequest
  split
  · split_ifs <;> simp [*]
  · rfl

structure Prepared.Consistent (d : Prepared F) : Prop where
  payload : d.request.requestText.previousResponseId = d.payload.previousResponseId
  request : d.request.previousResponseId = d.payload.previousResponseId
  fresh : ∀ m, d.freshText = some m → m.previousResponseId = none
  freshText : d.request.freshUpstreamRequestText = d.freshText

variable {d : Prepared F}

theorem Prepared.Consistent.toRequest (h : d.Consistent) : d.request.Consistent :=
  ⟨h.payload.trans h.request.symm,fun _ m hm => h.fresh m (h.freshText ▸ hm)⟩

variable [DecidableEq F] {c : ClientRequest F}

theorem durableAnchor_unanchored (h : (durableAnchor env c).isSome = true) :
    c.payload.previousResponseId = none := by
  unfold durableAnchor at h
  split at h
  · cases h
  · split at h
    · cases h
    · split_ifs at h with hc
      · simp only [Bool.and_eq_true,decide_eq_true_eq] at hc
        exact hc.1.1.2
      · cases h

theorem prepareStream_consistent : (prepareStream env c).Consistent := by
  have hfresh : ∀ m, (prepareStream env c).freshText = some m → m.previousResponseId = none := by
    intro m hm
    simp only [prepareStream] at hm
    split_ifs at hm with hinj
    cases hm
    rw [prepareRequest_text]
    exact durableAnchor_unanchored hinj
  have htext := @prepareRequest_text F env (prepareStream env c).payload
    c.payload.input (previousOutputs (anchoredPayload env c))
  refine ⟨?_,?_,hfresh,rfl⟩
  · unfold prepareStream at htext ⊢
    dsimp only at htext ⊢
    split_ifs <;> exact htext
  · unfold prepareStream
    dsimp only
    split_ifs <;> rfl

variable {a : Anchor F}

theorem injectSessionAnchor_consistent {b : Bool} (h : d.Consistent) :
    (injectSessionAnchor env b a d).Consistent := by
  unfold injectSessionAnchor
  split
  · exact h
  · rename_i x _
    split
    · rename_i hc
      simp only [Bool.and_eq_true,decide_eq_true_eq] at hc
      refine ⟨prepareRequest_text {d.payload with previousResponseId := some x}
        d.request.clientInput d.request.removed,rfl,?_,rfl⟩
      rintro m ⟨rfl⟩
      rw [h.payload]
      exact hc.1.2
    · exact h

theorem trimStoredPrefix_consistent (h : d.Consistent) : (trimStoredPrefix env a d).Consistent := by
  unfold trimStoredPrefix
  split
  · refine ⟨prepareRequest_text _ d.request.clientInput
      (d.request.removed++d.payload.input.take a.lastCompletedInputCount),?_⟩
    intro hinj m hm
    rw [if_pos hinj] at hm
    exact h.fresh m hm
  · exact h.toRequest

theorem attachToSession_consistent (b : Bool) (a : Anchor F) (c : ClientRequest F) :
    (attachToSession env b a (prepareStream env c)).Consistent :=
  trimStoredPrefix_consistent (injectSessionAnchor_consistent (prepareStream_consistent))

end

end CodexLb.Traffic
