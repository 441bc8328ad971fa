import CodexLb.TrafficCarrySteps
import CodexLb.TrafficDeliveryRuns

/-!
# The prefix that is cut from a request

A session keeps the id of its last completed response, and the count and the
fingerprint of the input that response has answered. A request whose input
starts with that input is sent without it and with the id. Nothing is lost if
the id, the count and the fingerprint belong to one response of the session's
account. `Trims` says which steps keep them together.

They come apart when a response to an empty input completes, since only its id
is noted, when the client names another response than the last one, when the
session moves to another account, and when a completed event is taken for the
answer to another request.

`history` are the responses completed before the session, for the durable row.
-/
namespace CodexLb.Traffic
open Runs

section
variable {F : Type}

/-- The anchor names a response of the account that has answered the input with
its count and fingerprint. -/
def Coherent (env : Env F) (known : List Completion) (a : Anchor F) (account : String) : Prop :=
  0 < a.lastCompletedInputCount → ∀ x ∈ a.lastCompletedResponseId,
    ∀ f ∈ a.lastCompletedInputPrefixFingerprint,
      ∃ k ∈ known, k.responseId = x ∧ k.accountId = account ∧
        k.clientInput.length = a.lastCompletedInputCount ∧
        inputFullFingerprint env k.clientInput = some f

/-- The count and the fingerprint of a request are those of the client's input. -/
def Measured (env : Env F) (r : Request F) : Prop :=
  r.inputItemCount = 0 ∨
    r.inputItemCount = r.clientInput.length ∧
      r.inputFullFingerprint = inputFullFingerprint env r.clientInput

/-- What was cut is the whole input of the response the request continues, and the
account has produced that response. -/
def Cut (known : List Completion) (r : Request F) (account : String) : Prop :=
  r.removed ≠ [] → ∀ x ∈ r.requestText.previousResponseId, ⟨x,account,r.removed⟩ ∈ known

theorem subset_known (history : List Completion) {c c' : List Completion} (h : c ⊆ c') :
    history++c ⊆ history++c' := by
  intro k hk
  rcases List.mem_append.mp hk with hk | hk
  · exact List.mem_append_left c' hk
  · exact List.mem_append_right history (h hk)

def trimRule (env : Env F) (history : List Completion) : Rule env where
  sendable c := Cut (history++c)
  anchored c := Coherent env (history++c)
  prepared := Measured env
  sendable_mono hsub h hne x hx := subset_known history hsub (h hne x hx)
  prepared_warmup _ := .inl rfl
  prepared_unanchored _ h := h

variable {env : Env F} {history known : List Completion} {account : String} {a : Anchor F}

theorem Coherent.mono {known' : List Completion} (hsub : known ⊆ known')
    (h : Coherent env known a account) : Coherent env known' a account := by
  intro hpos x hx f hf
  obtain ⟨k,hk,hrest⟩ := h hpos x hx f hf
  exact ⟨k,hsub hk,hrest⟩

theorem fingerprint_of_full {xs : List Item} {f : F} (h : inputFullFingerprint env xs = some f) :
    env.fingerprint xs = f := by
  unfold inputFullFingerprint at h
  split_ifs at h
  exact Option.some.inj h

section
variable {s : Session F}

/-- A session that changes its account has cut nothing and keeps no prefix. -/
theorem moves_of_trims (h : Carried (trimRule env history) s) {b : String}
    (hb : b = s.accountId ∨ s.anchor.lastCompletedInputCount = 0 ∧
      s.AllWaiting (fun _ r _ => r.removed = []) b) : Moves (trimRule env history) s b := by
  rcases hb with rfl | ⟨hzero,hall⟩
  · exact ⟨h.waiting,h.anchored⟩
  · refine ⟨fun i p r hp hmem hr hne => absurd (hall i p r hp hmem hr) hne,fun hpos => ?_⟩
    rw [hzero] at hpos
    cases hpos

theorem coherent_completed {ev : UpstreamEvent} {o : Option Origin} {q : RequestId} {r : Request F}
    (hanchor : Coherent env (history++s.completions) s.anchor s.accountId) (hr : Measured env r)
    (hget : s.requests.get? q = some r)
    (h : if ev.responseId = none then r.inputItemCount = 0
      else (o.bind s.sendOf).map Send.request = some q ∧
        (0 < r.inputItemCount ∨ s.anchor.lastCompletedInputCount = 0)) :
    Coherent env (history++(s.completions++s.completion ev o)) (s.completedAnchor ev r)
      s.accountId := by
  have hsub := subset_known history (List.subset_append_left s.completions (s.completion ev o))
  cases hev : ev.responseId with
  | none =>
    rw [if_pos hev] at h
    have hsame : s.completedAnchor ev r = s.anchor := by
      simp only [Session.completedAnchor,hev,h,lt_irrefl,if_false]
      rfl
    rw [hsame]
    exact hanchor.mono hsub
  | some x =>
    rw [if_neg (by rw [hev]; simp)] at h
    by_cases hpos : 0 < r.inputItemCount
    · obtain ⟨m,hm,hq⟩ := Option.map_eq_some_iff.mp h.1
      have hcompletion : s.completion ev o = [⟨x,s.accountId,r.clientInput⟩] := by
        simp only [Session.completion,hev,hm,Option.bind_some,hq,hget]
      obtain ⟨hcount,hfp⟩ := hr.resolve_left (by omega)
      intro _ y hy f hf
      simp only [Session.completedAnchor,hev,if_pos hpos] at hy hf ⊢
      cases hy
      refine ⟨⟨x,s.accountId,r.clientInput⟩,?_,rfl,rfl,hcount.symm,hfp ▸ hf⟩
      rw [hcompletion]
      simp
    · intro hcount
      simp only [Session.completedAnchor,if_neg hpos,h.2.resolve_left hpos] at hcount
      cases hcount

end

variable [DecidableEq F] {c : ClientRequest F} {xs : List Item} {n : ℕ} {fp : Option F}

theorem prefixMatches_iff : prefixMatchesStored env xs n fp = true ↔
      0 < n ∧ n < xs.length ∧ some (env.fingerprint (xs.take n)) = fp := by
  cases fp with
  | none => simp [prefixMatchesStored]
  | some f => simp [prefixMatchesStored,and_assoc]

variable {x : String}

theorem Coherent.mem_of_matches (h : Coherent env known a account)
    (hinj : Function.Injective env.fingerprint) (hx : a.lastCompletedResponseId = some x)
    (hm : prefixMatchesStored env xs a.lastCompletedInputCount
      a.lastCompletedInputPrefixFingerprint = true) :
    ⟨x,account,xs.take a.lastCompletedInputCount⟩ ∈ known := by
  obtain ⟨hpos,-,hf⟩ := prefixMatches_iff.mp hm
  obtain ⟨k,hk,hid,hacc,hcount,hfp⟩ := h hpos x hx _ hf.symm
  have he : k.clientInput = xs.take a.lastCompletedInputCount := hinj (fingerprint_of_full hfp)
  rw [← he,← hid,← hacc]
  exact hk

structure Prepared.Whole (env : Env F) (c : ClientRequest F) (d : Prepared F) : Prop where
  input : d.payload.input = c.payload.input
  client : d.request.clientInput = c.payload.input
  removed : d.request.removed = []
  measured : Measured env d.request

theorem anchoredPayload_input : (anchoredPayload env c).input = c.payload.input := by
  unfold anchoredPayload
  split <;> rfl

theorem prepareStream_whole (hcut : previousOutputs (anchoredPayload env c) = []) :
    (prepareStream env c).Whole env c := by
  have hinput : (prepareStream env c).payload.input = c.payload.input := by
    simp only [prepareStream,hcut,List.length_nil,List.drop_zero,anchoredPayload_input]
  refine ⟨hinput,?_,?_,.inr ⟨?_,?_⟩⟩
  all_goals
    simp only [prepareStream,hcut,List.isEmpty_nil,if_true,List.length_nil,List.drop_zero,
      prepareRequest,anchoredPayload_input]

variable {d : Prepared F} {b : Bool}

theorem injectSessionAnchor_whole (h : d.Whole env c) :
    (injectSessionAnchor env b a d).Whole env c := by
  unfold injectSessionAnchor
  split
  · exact h
  · split
    · refine ⟨h.input,h.client,h.removed,.inr ⟨?_,?_⟩⟩
      · simp only [prepareRequest,h.client,h.input]
      · simp only [prepareRequest,h.client,h.input]
    · exact h

theorem trimStoredPrefix_cut (h : d.Whole env c) :
    Measured env (trimStoredPrefix env a d) ∧ ((trimStoredPrefix env a d).removed = [] ∨
      prefixMatchesStored env c.payload.input a.lastCompletedInputCount
        a.lastCompletedInputPrefixFingerprint = true ∧
      (trimStoredPrefix env a d).removed = c.payload.input.take a.lastCompletedInputCount ∧
      (trimStoredPrefix env a d).requestText.previousResponseId =
        d.payload.previousResponseId) := by
  unfold trimStoredPrefix
  rw [h.input]
  dsimp only
  split
  · rename_i hc
    simp only [Bool.and_eq_true] at hc
    have hne : c.payload.input.isEmpty = false := by
      cases hin : c.payload.input with
      | nil => exact absurd (prefixMatches_iff.mp hc.2).2.1 (by simp [hin])
      | cons y ys => rfl
    refine ⟨.inr ?_,.inr ⟨hc.2,?_,?_⟩⟩
    · simp [prepareRequest,h.client,inputFullFingerprint,hne]
    · simp only [prepareRequest,h.removed,List.nil_append]
    · exact @prepareRequest_text F env
        {d.payload with input := c.payload.input.drop a.lastCompletedInputCount}
        d.request.clientInput (d.request.removed++c.payload.input.take a.lastCompletedInputCount)
  · exact ⟨h.measured,.inl h.removed⟩

theorem injectSessionAnchor_previous
    (h : (injectSessionAnchor env b a d).payload.previousResponseId = some x) :
    d.payload.previousResponseId = some x ∨ a.lastCompletedResponseId = some x := by
  unfold injectSessionAnchor at h
  split at h
  · exact .inl h
  · split at h
    · exact .inr (by rw [‹a.lastCompletedResponseId = _›]; exact h)
    · exact .inl h

theorem prepareStream_previous (h : (prepareStream env c).payload.previousResponseId = some x) :
    c.payload.previousResponseId = some x ∨ ∃ d, durableAnchor env c = some (d,x) := by
  change (anchoredPayload env c).previousResponseId = some x at h
  unfold anchoredPayload at h
  split at h
  · rename_i d r hd
    cases h
    exact .inr ⟨d,hd⟩
  · exact .inl h

theorem fullResendAnchor_of_matches {d : DurableRow F} (hd : durableAnchor env c = some (d,x))
    (hm : prefixMatchesStored env c.payload.input n fp = true) :
    ∃ a, fullResendAnchor env c = some a ∧ a.lastCompletedResponseId = some x := by
  obtain ⟨hpos,hlen,-⟩ := prefixMatches_iff.mp hm
  have hfull : looksLikeFullResend c.payload.input = true := by
    generalize c.payload.input = xs at hlen
    match xs,hlen with
    | [_],hlen => simp at hlen; omega
    | _::_::_,_ => rfl
  have hrow : prefixMatchesStored env c.payload.input (d.latestInputItemCount.getD 0)
      d.latestInputFullFingerprint = true := by
    unfold durableAnchor at hd
    split at hd
    · cases hd
    · split at hd
      · cases hd
      · split_ifs at hd with hc
        cases hd
        rw [hfull] at hc
        simp only [Bool.and_eq_true,Bool.not_true,Bool.false_or] at hc
        exact hc.2
  obtain ⟨hcount,-,hf⟩ := prefixMatches_iff.mp hrow
  unfold fullResendAnchor
  rw [hd]
  dsimp only
  rw [hfull,← hf]
  cases hn : d.latestInputItemCount with
  | none => simp [hn] at hcount
  | some n => exact ⟨_,rfl,rfl⟩

def Trims (env : Env F) (history : List Completion) (s : Session F) : Event F → Prop
  | .arrive _ c =>
    previousOutputs (anchoredPayload env c) = [] ∧
    (∀ x ∈ c.payload.previousResponseId,
      prefixMatchesStored env c.payload.input s.anchor.lastCompletedInputCount
        s.anchor.lastCompletedInputPrefixFingerprint = true →
      s.anchor.lastCompletedResponseId = some x) ∧
    ∀ a ∈ fullResendAnchor env c, Coherent env (history++s.completions) a s.accountId
  | .rearrive _ m c l _ => m.input = c ∧ l = []
  | .recover _ l | .retry _ l | .reconnect l => ∀ b ∈ s.connect l, b = s.accountId ∨
      s.anchor.lastCompletedInputCount = 0 ∧ s.AllWaiting (fun _ r _ => r.removed = []) b
  | .receive ev origin => ev.type = .completed →
      ∀ q ∈ s.terminal ev origin, ∀ r ∈ s.requests.get? q,
        if ev.responseId = none then r.inputItemCount = 0
        else (origin.bind s.sendOf).map Send.request = some q ∧
          (0 < r.inputItemCount ∨ s.anchor.lastCompletedInputCount = 0)
  | _ => True

section
variable {s : Session F}

/-- The id a trimmed request carries is the one of the anchor it is trimmed with. -/
theorem adoptAnchor_previous {b : Bool}
    (hown : ∀ x ∈ c.payload.previousResponseId, prefixMatchesStored env c.payload.input
      a.lastCompletedInputCount a.lastCompletedInputPrefixFingerprint = true →
      a.lastCompletedResponseId = some x)
    (hx : (injectSessionAnchor env b (adoptAnchor a (prepareStream env c)) (prepareStream env
      c)).payload.previousResponseId = some x)
    (hm : prefixMatchesStored env c.payload.input (adoptAnchor a (prepareStream env
      c)).lastCompletedInputCount (adoptAnchor a (prepareStream env
      c)).lastCompletedInputPrefixFingerprint = true) :
    (adoptAnchor a (prepareStream env c)).lastCompletedResponseId = some x := by
  have hadopt : adoptAnchor a (prepareStream env c) = (fullResendAnchor env c).getD a := rfl
  rcases injectSessionAnchor_previous hx with hp | hp
  · rcases prepareStream_previous hp with hclient | ⟨d,hd⟩
    · have hnone : durableAnchor env c = none := by
        cases hd : durableAnchor env c with
        | none => rfl
        | some p =>
          have hsome : (durableAnchor env c).isSome = true := by rw [hd]; rfl
          rw [durableAnchor_unanchored hsome] at hclient
          cases hclient
      have hsame : adoptAnchor a (prepareStream env c) = a := by
        rw [hadopt,fullResendAnchor,hnone]
        rfl
      rw [hsame] at hm ⊢
      exact hown x hclient hm
    · obtain ⟨a',ha,hid⟩ := fullResendAnchor_of_matches hd hm
      rw [hadopt,ha]
      exact hid
  · exact hp

theorem attaches_of_trims (hinj : Function.Injective env.fingerprint) {i : ℕ}
    (hanchor : Coherent env (history++s.completions) s.anchor s.accountId)
    (h : Trims env history s (.arrive i c)) : Fits (trimRule env history) s (.arrive i c) := by
  obtain ⟨hcut,hown,hrow⟩ := h
  have hadopt : Coherent env (history++s.completions) (adoptAnchor s.anchor (prepareStream env c))
      s.accountId := by
    change Coherent env _ ((fullResendAnchor env c).getD s.anchor) _
    cases ha : fullResendAnchor env c with
    | none => exact hanchor
    | some a => exact hrow a ha
  have hwhole := injectSessionAnchor_whole (b := s.codexSession)
    (a := adoptAnchor s.anchor (prepareStream env c)) (prepareStream_whole hcut)
  obtain ⟨hmeasured,hremoved⟩ :=
    trimStoredPrefix_cut (a := adoptAnchor s.anchor (prepareStream env c)) hwhole
  refine ⟨⟨?_,hmeasured⟩,hadopt⟩
  intro hne x hx
  rcases hremoved with hnil | ⟨hm,hhead,hprev⟩
  · exact absurd hnil hne
  · have hid := adoptAnchor_previous hown (hprev.symm.trans hx) hm
    have hmem := hadopt.mem_of_matches hinj hid hm
    rw [← hhead] at hmem
    exact hmem

theorem Trims.fits (hinj : Function.Injective env.fingerprint)
    (h : Carried (trimRule env history) s) {e : Event F} (he : Trims env history s e) :
    Fits (trimRule env history) s e := by
  cases e with
  | arrive i c => exact attaches_of_trims hinj h.anchored he
  | rearrive i m c l a =>
    obtain ⟨rfl,rfl⟩ := he
    exact ⟨fun hne => absurd rfl hne,.inr ⟨rfl,rfl⟩⟩
  | recover i l | retry i l | reconnect l => exact fun b hb => moves_of_trims h (he b hb)
  | receive ev o =>
    intro hev r' hr'
    obtain ⟨q,hq,hr'⟩ := Option.bind_eq_some_iff.mp hr'
    obtain ⟨r,hr,rfl⟩ := Option.map_eq_some_iff.mp hr'
    exact coherent_completed (r := r) h.anchored (h.prepared q r.static hr').2 hr (he hev q hq r hr)
  | _ => trivial

end

/-- Whatever was cut from a message that continues a response is the whole input
that response has answered, on the same account. -/
theorem cut_prefix_was_answered (hinj : Function.Injective env.fingerprint) {a : String} {b : Bool}
    {es : List (Event F)} {s : Session F}
    (h : Run (restrict (Steps (step env)) (Trims env history)) (Session.start a b) es s) :
    ∀ k ∈ s.sockets, ∀ m ∈ k.sent, m.removed ≠ [] → ∀ x ∈ m.message.previousResponseId,
      ⟨x,k.accountId,m.removed⟩ ∈ history++s.completions := by
  have hcarried := h.invariant (I := Carried (trimRule env history))
    (fun _ _ _ hs hstep => step_carried hs (hstep.1.fits hinj hs) hstep.2)
    (carried_start b nofun)
  intro k hk m hm hne x hx
  obtain ⟨r,hcut,htext,-,hremoved⟩ := hcarried.sent k.traffic (List.mem_map_of_mem hk) m hm
    (by rw [hx]; simp)
  rw [htext] at hx
  rw [hremoved] at hne ⊢
  exact hcut hne x hx

end

def listRequest (bodies : List String) : ClientRequest (List Item) :=
  {textRequest "" with payload := ⟨none,bodies.map userItem,true⟩}

/-- A submit whose message is the `n`-th on the socket, up to its completed event. -/
def answeredEvents (i n : ℕ) (c : ClientRequest (List Item)) (responseId : String) :
    List (Event (List Item)) :=
  sendEvents i c++[.sent i,.registered i,
    .receive (upstreamEvent .created (some responseId)) (some ⟨0,n⟩),.handled,
    .receive (upstreamEvent .completed (some responseId)) (some ⟨0,n⟩),.handled]

instance (env : Env (List Item)) (history : List Completion) (s : Session (List Item))
    (e : Event (List Item)) : Decidable (Trims env history s e) := by
  unfold Trims Coherent; split <;> infer_instance

def resentEvents : List (Event (List Item)) :=
  answeredEvents 0 0 (listRequest ["a"]) "resp_1"++sendEvents 1 (listRequest ["a","b"])

theorem resent_prefix_was_answered :
    ∃ s, Run (restrict (Steps (step plainEnv)) (Trims plainEnv [])) (Session.start "account" true)
        resentEvents s ∧
      s.sockets.map (fun k => k.sent.map fun m => (m.message.previousResponseId,m.removed)) =
        [[(none,[]),(some "resp_1",[userItem "a"])]] ∧
      ∀ k ∈ s.sockets, ∀ m ∈ k.sent, m.removed ≠ [] → ∀ x ∈ m.message.previousResponseId,
        ⟨x,k.accountId,m.removed⟩ ∈ []++s.completions :=
  exists_run_with (fun _ hrun hs => ⟨hs,cut_prefix_was_answered (fun _ _ h => h) hrun⟩)
    (by decide +kernel)

/-- A request without items is answered between the two others. -/
def interleavedEvents : List (Event (List Item)) :=
  answeredEvents 0 0 (listRequest ["a"]) "resp_1"++
    answeredEvents 1 1 (listRequest []) "resp_2"++
    sendEvents 2 (listRequest ["a","b"])

/-- The third message continues the answer to nothing, and the first item is cut. -/
theorem empty_answer_loses_prefix :
    ∃ s, Run (restrict (Steps (step plainEnv)) fun s e => Answers s e ∧ Orderly s e)
        (Session.start "account" true) interleavedEvents s ∧
      s.completions = [⟨"resp_1","account",[userItem "a"]⟩,⟨"resp_2","account",[]⟩] ∧
      ∃ k ∈ s.sockets, ∃ m ∈ k.sent, m.message = ⟨some "resp_2",[userItem "b"],true⟩ ∧
        m.removed = [userItem "a"] ∧
        ⟨"resp_2",k.accountId,m.removed⟩ ∉ s.completions :=
  exists_run_of_exec (by decide +kernel)

end CodexLb.Traffic
