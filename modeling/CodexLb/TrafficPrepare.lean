import CodexLb.TrafficRequests

/-!
# Preparing a request for a bridge session

What `_stream_via_http_bridge` does to the input and the previous response id of
a client request before it submits it: the anchor injected from the durable row,
the cut of the previous response's own output items, the anchor injected from
the session, and the cut of the prefix the session has stored. The owner account
and the durable row are looked up before; they are arguments here.

Payloads above the size limit of the upstream and the fields that are only passed
on are left out.
-/
namespace CodexLb.Traffic

/-- `fingerprint` hashes a list of items; `dedupe` drops replayed tool calls and
counts them; `prewarmEnabled` is a setting. -/
structure Env (F : Type) where
  fingerprint : List Item → F
  dedupe : List Item → List Item × ℕ
  prewarmEnabled : Bool

structure DurableRow (F : Type) where
  accountId : String
  latestResponseId : Option String
  latestInputItemCount : Option ℕ
  latestInputFullFingerprint : Option F
  deriving DecidableEq, Repr

structure Anchor (F : Type) where
  lastCompletedResponseId : Option String
  lastCompletedInputCount : ℕ
  lastCompletedInputPrefixFingerprint : Option F
  deriving DecidableEq, Repr

def Anchor.empty {F : Type} : Anchor F := ⟨none,0,none⟩

structure ClientRequest (F : Type) where
  payload : Message
  durable : Option (DurableRow F)
  hardKey : Bool
  liveLocalSession : Bool
  forwardsToActiveOwner : Bool
  preferredAccountId : Option String
  deriving DecidableEq, Repr

section Prepare
variable {F : Type} [DecidableEq F] (env : Env F)

def inputFullFingerprint (xs : List Item) : Option F :=
  if xs.isEmpty then none else some (env.fingerprint xs)

/-- `_prepare_http_bridge_request` for a payload; the count and the fingerprint
are those of the input before replayed tool calls are dropped. -/
def prepareRequest (payload : Message) (client removed : List Item) : Request F :=
  let text := match payload.previousResponseId with
    | some _ => if 0 < (env.dedupe payload.input).2 then
        {payload with input := (env.dedupe payload.input).1} else payload
    | none => payload
  {requestText := text
   previousResponseId := payload.previousResponseId
   inputItemCount := payload.input.length
   inputFullFingerprint := inputFullFingerprint env payload.input
   awaitingResponseCreated := true
   eventQueue := true
   clientInput := client
   removed := removed}

/-- `_http_bridge_payload_looks_like_full_resend`. -/
def looksLikeFullResend : List Item → Bool
  | [] => false
  | [x] => 4096 ≤ x.jsonSize
  | _ => true

/-- `_input_prefix_matches_stored_context`. -/
def prefixMatchesStored (xs : List Item) (storedCount : ℕ) (storedFingerprint : Option F) : Bool :=
  match storedFingerprint with
  | some f =>
    0 < storedCount && storedCount < xs.length && env.fingerprint (xs.take storedCount) = f
  | none => false

def isToolOutput (x : Item) : Bool :=
  x.itemType = .functionCallOutput || x.itemType = .customToolCallOutput

/-- `_is_http_bridge_previous_response_output_item`. -/
def isPreviousResponseOutput (x : Item) : Bool :=
  match x.itemType with
  | .reasoning | .functionCall | .customToolCall => x.outputMarker
  | .message => x.assistant && x.outputMarker
  | _ => false

/-- How many items `_trim_http_bridge_previous_response_input_items` cuts. -/
def previousOutputCount (xs : List Item) : ℕ :=
  match xs.findIdx? isToolOutput with
  | none => 0
  | some n => if (xs.take n).all isPreviousResponseOutput then n else 0

structure Prepared (F : Type) where
  payload : Message
  request : Request F
  proxyInjected : Bool
  freshText : Option Message
  fullResendAnchor : Option (Anchor F)
  durable : Option (DurableRow F)
  deriving DecidableEq, Repr

def durableAnchor (c : ClientRequest F) : Option (DurableRow F × String) :=
  match c.durable with
  | none => none
  | some d =>
    match d.latestResponseId with
    | none => none
    | some r =>
      if !c.liveLocalSession && !c.forwardsToActiveOwner && c.payload.previousResponseId = none &&
          c.hardKey && (!looksLikeFullResend c.payload.input ||
            prefixMatchesStored env c.payload.input (d.latestInputItemCount.getD 0)
              d.latestInputFullFingerprint) then
        some (d,r)
      else none

/-- The anchor of the durable row, kept for the session when the request resends
the whole input. -/
def fullResendAnchor (c : ClientRequest F) : Option (Anchor F) :=
  match durableAnchor env c with
  | some (d,r) =>
    match looksLikeFullResend c.payload.input,d.latestInputItemCount,d.latestInputFullFingerprint with
    | true,some n,some f => some ⟨some r,n,some f⟩
    | _,_,_ => none
  | none => none

def anchoredPayload (c : ClientRequest F) : Message :=
  match durableAnchor env c with
  | some (_,r) => {c.payload with previousResponseId := some r}
  | none => c.payload

/-- The items at the front that the previous response has itself put out. -/
def previousOutputs (m : Message) : List Item :=
  match m.previousResponseId with
  | some _ => m.input.take (previousOutputCount m.input)
  | none => []

/-- From the client's payload to the first request state. -/
def prepareStream (c : ClientRequest F) : Prepared F :=
  let anchored := anchoredPayload env c
  let injected := (durableAnchor env c).isSome
  let cut := previousOutputs anchored
  let payload := {anchored with input := anchored.input.drop cut.length}
  let request := prepareRequest env payload c.payload.input cut
  let request := if cut.isEmpty then request else {request with
    inputItemCount := anchored.input.length
    inputFullFingerprint := inputFullFingerprint env anchored.input}
  {payload := payload
   request := {request with
     preferredAccountId := c.preferredAccountId
     proxyInjectedPreviousResponseId := injected
     freshUpstreamRequestText := if injected then
       some (prepareRequest env c.payload c.payload.input []).requestText else none}
   proxyInjected := injected
   freshText := if injected then
     some (prepareRequest env c.payload c.payload.input []).requestText else none
   fullResendAnchor := fullResendAnchor env c
   durable := c.durable}

/-- The session's own anchor goes to a request without one whose input starts
with what the session has stored. -/
def injectSessionAnchor (codexSession : Bool) (a : Anchor F) (p : Prepared F) : Prepared F :=
  match a.lastCompletedResponseId with
  | none => p
  | some r =>
    if codexSession && !p.proxyInjected && p.payload.previousResponseId = none &&
        prefixMatchesStored env p.payload.input a.lastCompletedInputCount
          a.lastCompletedInputPrefixFingerprint then
      let payload := {p.payload with previousResponseId := some r}
      {p with
        payload := payload
        request := {prepareRequest env payload p.request.clientInput p.request.removed with
          preferredAccountId := p.durable.map (·.accountId)
          proxyInjectedPreviousResponseId := true
          freshUpstreamRequestText := some p.request.requestText}
        proxyInjected := true
        freshText := some p.request.requestText}
    else p

def trimStoredPrefix (a : Anchor F) (p : Prepared F) : Request F :=
  if (p.proxyInjected || p.payload.previousResponseId ≠ none) &&
      prefixMatchesStored env p.payload.input a.lastCompletedInputCount
        a.lastCompletedInputPrefixFingerprint then
    let xs := p.payload.input
    let n := a.lastCompletedInputCount
    let payload := {p.payload with input := xs.drop n}
    {prepareRequest env payload p.request.clientInput (p.request.removed++xs.take n) with
      preferredAccountId := p.request.preferredAccountId
      inputItemCount := xs.length
      inputFullFingerprint := some (env.fingerprint xs)
      proxyInjectedPreviousResponseId := p.proxyInjected
      freshUpstreamRequestText := if p.proxyInjected then p.freshText else none
      freshUpstreamRequestIsRetrySafe := p.proxyInjected}
  else p.request

def adoptAnchor (a : Anchor F) (p : Prepared F) : Anchor F := p.fullResendAnchor.getD a

/-- From the first request state to the one that is submitted. -/
def attachToSession (codexSession : Bool) (a : Anchor F) (p : Prepared F) : Request F :=
  let a := adoptAnchor a p
  trimStoredPrefix env a (injectSessionAnchor env codexSession a p)

end Prepare

section
variable {F : Type} {env : Env F}

structure Request.New (r : Request F) : Prop where
  responseId : r.responseId = none
  gate : r.responseCreateGateAcquired = false
  draining : r.drainingUntilTerminal = false
  replays : r.replayCount = 0

section
variable [DecidableEq F]

theorem prepareStream_new {c : ClientRequest F} : (prepareStream env c).request.New := by
  unfold prepareStream
  dsimp only
  split_ifs <;> exact ⟨rfl,rfl,rfl,rfl⟩

variable {a : Anchor F} {d : Prepared F}

theorem injectSessionAnchor_new {b : Bool} (h : d.request.New) :
    (injectSessionAnchor env b a d).request.New := by
  unfold injectSessionAnchor
  split
  · exact h
  · split_ifs
    · exact ⟨rfl,rfl,rfl,rfl⟩
    · exact h

theorem trimStoredPrefix_new (h : d.request.New) : (trimStoredPrefix env a d).New := by
  unfold trimStoredPrefix
  split
  · exact ⟨rfl,rfl,rfl,rfl⟩
  · exact h

end

end

end CodexLb.Traffic
