import CodexLb.Dict
import CodexLb.IpAddress
import CodexLb.JsonText

/-!
# Forwarding a request to the instance that owns its session

`app/modules/proxy/http_bridge_forwarding.py`: the headers that one instance adds
to a client's request when it passes the request on, and what the other instance
reads from them. Both sides sign the context and the payload with a shared secret.

A digest is some text without surrounding blanks. A signature header that is not
ASCII, on which the comparison of digests raises, cannot be one. Only ASCII letters
are lowered when a flag is read, since no other letter lowers to one of its words.
-/
namespace CodexLb.Forwarding
open IpAddress (Text)
open PythonText

/-- A digest and a keyed digest as hexadecimal text. -/
structure Keys where
  sha256 : Text → Text
  hmac : Text → Text
  hmac_strip : ∀ m, strip (hmac m) = hmac m
  hmac_ne_nil : ∀ m, hmac m ≠ []

structure Payload where
  json : Json
  valid : JsonText.valid json = true

structure Reservation where
  reservationId : Text
  keyId : Text
  model : Text
  deriving DecidableEq, Repr

structure Context where
  originInstance : Text
  targetInstance : Text
  codexSessionAffinity : Bool
  downstreamTurnState : Option Text
  originalAffinityKind : Option Text
  originalAffinityKey : Option Text
  reservation : Option Reservation
  deriving DecidableEq, Repr

abbrev Headers := Dict String Text

abbrev forwardedHeader := "x-codex-bridge-forwarded"
abbrev originInstanceHeader := "x-codex-bridge-origin-instance"
abbrev targetInstanceHeader := "x-codex-bridge-target-instance"
abbrev codexAffinityHeader := "x-codex-bridge-codex-session-affinity"
abbrev reservationIdHeader := "x-codex-bridge-reservation-id"
abbrev reservationKeyIdHeader := "x-codex-bridge-reservation-key-id"
abbrev reservationModelHeader := "x-codex-bridge-reservation-model"
abbrev affinityKindHeader := "x-codex-bridge-affinity-kind"
abbrev affinityKeyHeader := "x-codex-bridge-affinity-key"
abbrev signatureHeader := "x-codex-bridge-signature"
abbrev turnStateHeader := "x-codex-turn-state"

def flag (b : Bool) : Text := if b then ['1'] else ['0']

/-- The texts that are signed, without the digest of the payload. -/
def Context.fields (c : Context) : List Text :=
  [c.originInstance,c.targetInstance,flag c.codexSessionAffinity,
    c.downstreamTurnState.getD [],c.originalAffinityKind.getD [],
    c.originalAffinityKey.getD [],(c.reservation.map Reservation.reservationId).getD [],
    (c.reservation.map Reservation.keyId).getD [],(c.reservation.map Reservation.model).getD []]

/-- `_bridge_forward_signature`. -/
def bridgeForwardSignature (k : Keys) (payload : Payload) (c : Context) : Text :=
  k.hmac (['|'].intercalate (c.fields++[k.sha256 (JsonText.dumps payload.json)]))

def given (value : Option Text) : Option Text := value.filter (· ≠ [])

def Headers.withAffinity (h : Headers) (c : Context) : Headers :=
  match given c.originalAffinityKind,given c.originalAffinityKey with
  | some kind,some key => (h.set affinityKindHeader kind).set affinityKeyHeader key
  | _,_ => h

def Headers.withTurnState (h : Headers) (c : Context) : Headers :=
  match given c.downstreamTurnState with
  | some turnState => h.set turnStateHeader turnState
  | none => h

def Headers.withReservation (h : Headers) (c : Context) : Headers :=
  match c.reservation with
  | some r => ((h.set reservationIdHeader r.reservationId).set reservationKeyIdHeader
      r.keyId).set reservationModelHeader r.model
  | none => h

/-- `build_owner_forward_headers`. -/
def buildOwnerForwardHeaders (k : Keys) (headers : Headers) (payload : Payload) (c : Context) :
    Headers :=
  let forwarded := (headers.pop "host").pop "content-length"
  let forwarded := forwarded.set forwardedHeader ['1']
  let forwarded := forwarded.set originInstanceHeader c.originInstance
  let forwarded := forwarded.set targetInstanceHeader c.targetInstance
  let forwarded := forwarded.set codexAffinityHeader (flag c.codexSessionAffinity)
  let forwarded := Headers.withAffinity forwarded c
  let forwarded := Headers.withTurnState forwarded c
  let forwarded := Headers.withReservation forwarded c
  forwarded.set signatureHeader (bridgeForwardSignature k payload c)

structure Refusal where
  status : ℕ
  code : String
  message : String
  errorType : String
  deriving DecidableEq, Repr

def missingMarker : Refusal :=
  ⟨400,"bridge_forward_invalid","Internal bridge forward marker is required",
    "invalid_request_error"⟩

def wrongTarget : Refusal :=
  ⟨503,"bridge_owner_forward_failed","Internal bridge forward reached a non-target instance",
    "server_error"⟩

def invalidSignature : Refusal :=
  ⟨400,"bridge_forward_invalid","Internal bridge forward signature is invalid",
    "invalid_request_error"⟩

/-- `_optional_header`. -/
def optionalHeader (value : Option Text) : Option Text := given (value.map strip)

/-- `_bool_header`. -/
def boolHeader (value : Option Text) : Bool :=
  value.any fun v =>
    (strip v).map Char.toLower ∈ [['1'],['t','r','u','e'],['y','e','s'],['o','n']]

/-- `_reservation_from_headers`. -/
def reservationFromHeaders (headers : Headers) : Option Reservation := do
  let reservationId ← optionalHeader (headers.get? reservationIdHeader)
  let keyId ← optionalHeader (headers.get? reservationKeyIdHeader)
  let model ← optionalHeader (headers.get? reservationModelHeader)
  return ⟨reservationId,keyId,model⟩

def contextFromHeaders (headers : Headers) (targetInstance : Text) : Context where
  originInstance := (optionalHeader (headers.get? originInstanceHeader)).getD
    ['u','n','k','n','o','w','n']
  targetInstance := targetInstance
  codexSessionAffinity := boolHeader (headers.get? codexAffinityHeader)
  downstreamTurnState := optionalHeader (headers.get? turnStateHeader)
  originalAffinityKind := optionalHeader (headers.get? affinityKindHeader)
  originalAffinityKey := optionalHeader (headers.get? affinityKeyHeader)
  reservation := reservationFromHeaders headers

/-- `parse_forwarded_request`. -/
def parseForwardedRequest (k : Keys) (headers : Headers) (payload : Payload)
    (currentInstance : Text) : Except Refusal Context :=
  if headers.get? forwardedHeader ≠ some ['1'] then .error missingMarker
  else
    let targetInstance := strip ((headers.get? targetInstanceHeader).getD [])
    if targetInstance = [] ∨ targetInstance ≠ currentInstance then .error wrongTarget
    else
      let context := contextFromHeaders headers targetInstance
      if optionalHeader (headers.get? signatureHeader) ≠
          some (bridgeForwardSignature k payload context) then .error invalidSignature
      else .ok context

/-- Not empty, and without blanks around it. -/
def Clean (t : Text) : Prop := strip t = t ∧ t ≠ []

/-- A context as the proxy builds it; the model of a reservation is whatever the
request names, or empty. -/
structure Context.WellFormed (c : Context) : Prop where
  origin : Clean c.originInstance
  target : Clean c.targetInstance
  turnState : ∀ t ∈ c.downstreamTurnState, Clean t
  affinityKind : ∀ t ∈ c.originalAffinityKind, Clean t
  affinityKey : ∀ t ∈ c.originalAffinityKey, Clean t
  affinity : c.originalAffinityKind = none ↔ c.originalAffinityKey = none
  reservation : ∀ r ∈ c.reservation, Clean r.reservationId ∧ Clean r.keyId

/-- The client has sent nothing in place of what the context lacks, and a
reservation names its model. -/
structure Undisturbed (headers : Headers) (c : Context) : Prop where
  turnState : c.downstreamTurnState = none →
    optionalHeader (headers.get? turnStateHeader) = none
  affinity : c.originalAffinityKind = none →
    optionalHeader (headers.get? affinityKindHeader) = none ∧
      optionalHeader (headers.get? affinityKeyHeader) = none
  reservation : c.reservation = none → reservationFromHeaders headers = none
  model : ∀ r ∈ c.reservation, Clean r.model

variable {t : Text}

theorem given_of_clean (h : Clean t) : given (some t) = some t :=
  Option.filter_some_pos (decide_eq_true h.2)

theorem optionalHeader_of_clean (h : Clean t) : optionalHeader (some t) = some t := by
  rw [optionalHeader,Option.map_some,h.1]
  exact given_of_clean h

theorem given_of_forall {value : Option Text} (h : ∀ t ∈ value, Clean t) : given value = value := by
  cases value with
  | none => rfl
  | some t => exact given_of_clean (h t rfl)

section Lookups
variable (h : Headers) (c : Context) (name : String)

theorem get?_withAffinity (hc : c.WellFormed) : (h.withAffinity c).get? name =
    if name = affinityKeyHeader then c.originalAffinityKey.or (h.get? name)
    else if name = affinityKindHeader then c.originalAffinityKind.or (h.get? name)
    else h.get? name := by
  have haffinity := hc.affinity
  rw [Headers.withAffinity,given_of_forall hc.affinityKind,given_of_forall hc.affinityKey]
  cases hkind : c.originalAffinityKind with
  | none =>
    rw [haffinity.1 hkind]
    simp only [Option.none_or,ite_self]
  | some kind =>
    cases hkey : c.originalAffinityKey with
    | none => rw [haffinity.2 hkey] at hkind; cases hkind
    | some key => simp only [Dict.get?_set,Option.some_or]

theorem get?_withTurnState (hc : c.WellFormed) : (h.withTurnState c).get? name =
    if name = turnStateHeader then c.downstreamTurnState.or (h.get? name) else h.get? name := by
  rw [Headers.withTurnState,given_of_forall hc.turnState]
  cases c.downstreamTurnState with
  | none => simp only [Option.none_or,ite_self]
  | some t => simp only [Dict.get?_set,Option.some_or]

theorem get?_withReservation : (h.withReservation c).get? name =
    if name = reservationModelHeader then
      (c.reservation.map Reservation.model).or (h.get? name)
    else if name = reservationKeyIdHeader then
      (c.reservation.map Reservation.keyId).or (h.get? name)
    else if name = reservationIdHeader then
      (c.reservation.map Reservation.reservationId).or (h.get? name)
    else h.get? name := by
  rw [Headers.withReservation]
  cases c.reservation with
  | none => simp only [Option.map_none,Option.none_or,ite_self]
  | some r => simp only [Dict.get?_set,Option.map_some,Option.some_or]

end Lookups

/-- What stands under each name the receiver reads: what the sender has set, or else
what the client has sent. -/
structure Overlaid (k : Keys) (headers : Headers) (payload : Payload) (c : Context)
    (built : Headers) : Prop where
  marker : built.get? forwardedHeader = some ['1']
  origin : built.get? originInstanceHeader = some c.originInstance
  target : built.get? targetInstanceHeader = some c.targetInstance
  codexAffinity : built.get? codexAffinityHeader = some (flag c.codexSessionAffinity)
  turnState : built.get? turnStateHeader =
    c.downstreamTurnState.or (headers.get? turnStateHeader)
  affinityKind : built.get? affinityKindHeader =
    c.originalAffinityKind.or (headers.get? affinityKindHeader)
  affinityKey : built.get? affinityKeyHeader =
    c.originalAffinityKey.or (headers.get? affinityKeyHeader)
  reservationId : built.get? reservationIdHeader =
    (c.reservation.map Reservation.reservationId).or (headers.get? reservationIdHeader)
  reservationKeyId : built.get? reservationKeyIdHeader =
    (c.reservation.map Reservation.keyId).or (headers.get? reservationKeyIdHeader)
  reservationModel : built.get? reservationModelHeader =
    (c.reservation.map Reservation.model).or (headers.get? reservationModelHeader)
  signature : built.get? signatureHeader = some (bridgeForwardSignature k payload c)

section Received
variable {k : Keys} {headers : Headers} {payload : Payload} {c : Context}

theorem overlaid_build (hc : c.WellFormed) :
    Overlaid k headers payload c (buildOwnerForwardHeaders k headers payload c) := by
  constructor <;>
    simp [buildOwnerForwardHeaders,Dict.get?_set,Dict.get?_pop,get?_withReservation,
      get?_withTurnState _ _ _ hc,get?_withAffinity _ _ _ hc,forwardedHeader,
      originInstanceHeader,targetInstanceHeader,codexAffinityHeader,reservationIdHeader,
      reservationKeyIdHeader,reservationModelHeader,affinityKindHeader,affinityKeyHeader,
      signatureHeader,turnStateHeader]

variable {value other : Option Text}

theorem optionalHeader_or (hvalue : ∀ t ∈ value, Clean t) :
    optionalHeader (value.or other) = value.or (optionalHeader other) := by
  cases value with
  | none => rfl
  | some t => exact optionalHeader_of_clean (hvalue t rfl)

theorem boolHeader_flag {b : Bool} : boolHeader (some (flag b)) = b := by
  cases b <;> decide +kernel

def received (headers : Headers) (c : Context) : Context :=
  {c with
    downstreamTurnState :=
      c.downstreamTurnState.or (optionalHeader (headers.get? turnStateHeader))
    originalAffinityKind :=
      c.originalAffinityKind.or (optionalHeader (headers.get? affinityKindHeader))
    originalAffinityKey :=
      c.originalAffinityKey.or (optionalHeader (headers.get? affinityKeyHeader))
    reservation := match c.reservation with
      | none => reservationFromHeaders headers
      | some r => (optionalHeader (some r.model)).map fun model => {r with model := model}}

theorem contextFromHeaders_build (hc : c.WellFormed) :
    contextFromHeaders (buildOwnerForwardHeaders k headers payload c) c.targetInstance =
      received headers c := by
  have hsent : Overlaid k headers payload c _ := overlaid_build hc
  have horigin := optionalHeader_of_clean hc.origin
  have hreservation : reservationFromHeaders (buildOwnerForwardHeaders k headers payload c) =
      (received headers c).reservation := by
    rw [reservationFromHeaders,hsent.reservationId,hsent.reservationKeyId,
      hsent.reservationModel,received]
    cases hr : c.reservation with
    | none => rfl
    | some r =>
      obtain ⟨hid,hkey⟩ := hc.reservation r hr
      simp only [Option.map_some,Option.some_or,optionalHeader_of_clean hid,
        optionalHeader_of_clean hkey,Option.bind_eq_bind,Option.bind_some]
      cases optionalHeader (some r.model) <;> rfl
  rw [contextFromHeaders,hreservation,hsent.origin,hsent.codexAffinity,hsent.turnState,
    hsent.affinityKind,hsent.affinityKey,horigin,boolHeader_flag,
    optionalHeader_or hc.turnState,optionalHeader_or hc.affinityKind,
    optionalHeader_or hc.affinityKey]
  rfl

theorem parse_build (hc : c.WellFormed) :
    parseForwardedRequest k (buildOwnerForwardHeaders k headers payload c) payload
      c.targetInstance =
      if bridgeForwardSignature k payload c = bridgeForwardSignature k payload
        (received headers c) then .ok (received headers c) else .error invalidSignature := by
  have hsent : Overlaid k headers payload c _ := overlaid_build hc
  have htarget : strip ((some c.targetInstance).getD []) = c.targetInstance := hc.target.1
  have hsignature : optionalHeader (some (bridgeForwardSignature k payload c)) =
      some (bridgeForwardSignature k payload c) :=
    optionalHeader_of_clean ⟨k.hmac_strip _,k.hmac_ne_nil _⟩
  rw [parseForwardedRequest,hsent.marker,hsent.target,hsent.signature]
  simp only [htarget,hsignature,ne_eq,not_true_eq_false,or_false,if_false,if_neg hc.target.2,
    contextFromHeaders_build hc,Option.some.injEq,ite_not]

theorem or_eq_self : value.or other = value ↔ value = none → other = none := by
  cases value with
  | none => exact ⟨fun h _ => h,fun h => h rfl⟩
  | some t => exact ⟨nofun,fun _ => rfl⟩

theorem received_model {r : Reservation} :
    (optionalHeader (some r.model)).map (fun model => {r with model := model}) = some r ↔
      Clean r.model := by
  constructor
  · intro h
    obtain ⟨model,hmodel,heq⟩ := Option.map_eq_some_iff.1 h
    have hsame : model = r.model := congrArg Reservation.model heq
    rw [hsame,optionalHeader,given] at hmodel
    obtain ⟨hstrip,hne⟩ := Option.filter_eq_some_iff.1 hmodel
    exact ⟨Option.some.inj hstrip,of_decide_eq_true hne⟩
  · intro h
    rw [optionalHeader_of_clean h]
    rfl

theorem received_eq_iff (hc : c.WellFormed) : received headers c = c ↔ Undisturbed headers c := by
  constructor
  · intro h
    have hkind := or_eq_self.1 (congrArg Context.originalAffinityKind h)
    have hkey := or_eq_self.1 (congrArg Context.originalAffinityKey h)
    have hreservation := congrArg Context.reservation h
    refine ⟨or_eq_self.1 (congrArg Context.downstreamTurnState h),
      fun hnone => ⟨hkind hnone,hkey (hc.affinity.1 hnone)⟩,fun hnone => ?_,fun r hr => ?_⟩
    · rw [received,hnone] at hreservation
      exact hreservation
    · rw [received,Option.mem_def.1 hr] at hreservation
      exact received_model.1 hreservation
  · intro h
    have hturn := or_eq_self.2 h.turnState
    have hkind := or_eq_self.2 fun hnone => (h.affinity hnone).1
    have hkey := or_eq_self.2 fun hnone => (h.affinity (hc.affinity.2 hnone)).2
    have hreservation : (received headers c).reservation = c.reservation := by
      rw [received]
      cases hr : c.reservation with
      | none => exact h.reservation hr
      | some r => exact received_model.2 (h.model r hr)
    rw [received] at hreservation ⊢
    simp only at hreservation
    rw [hturn,hkind,hkey,hreservation]

end Received

/-- A forwarded request arrives as it was sent unless the client has filled in what
the context lacks, or the reservation names no model. -/
theorem forward_roundtrip (k : Keys) (headers : Headers) (payload : Payload) {c : Context}
    (hc : c.WellFormed) :
    parseForwardedRequest k (buildOwnerForwardHeaders k headers payload c) payload
      c.targetInstance = .ok c ↔ Undisturbed headers c := by
  rw [parse_build hc,← received_eq_iff hc]
  constructor
  · intro h
    split_ifs at h with hsame
    exact Except.ok.inj h
  · intro h
    rw [h,if_pos rfl]

theorem strip_wrapped (m : Text) : strip ('h'::(m++['h'])) = 'h'::(m++['h']) := by
  have hspace : ¬isSpace 'h' = true := by decide
  rw [strip,stripWhere,List.dropWhile_cons_of_neg hspace,← List.cons_append,
    List.rdropWhile_concat_neg _ _ _ hspace]

def sampleKeys : Keys where
  sha256 m := m
  hmac m := 'h'::(m++['h'])
  hmac_strip := strip_wrapped
  hmac_ne_nil _ := List.cons_ne_nil _ _

def samplePayload : Payload := ⟨.obj [("model",.str "gpt")],rfl⟩

def bareContext : Context := ⟨['a'],['b'],true,none,none,none,none⟩

def fullContext (model : Text) : Context :=
  {bareContext with
    downstreamTurnState := some ['t']
    originalAffinityKind := some ['k']
    originalAffinityKey := some ['s']
    reservation := some ⟨['r'],['i'],model⟩}

theorem clean_singleton {c : Char} (h : isSpace c = false) : Clean [c] := by
  refine ⟨?_,List.cons_ne_nil _ _⟩
  have hc : ¬isSpace c = true := by rw [h]; exact Bool.false_ne_true
  rw [strip,stripWhere,List.dropWhile_cons_of_neg hc]
  exact List.rdropWhile_concat_neg _ [] _ hc

theorem bareContext_wellFormed : bareContext.WellFormed :=
  ⟨clean_singleton rfl,clean_singleton rfl,nofun,nofun,nofun,Iff.rfl,nofun⟩

theorem fullContext_wellFormed (model : Text) : (fullContext model).WellFormed := by
  refine ⟨clean_singleton rfl,clean_singleton rfl,?_,?_,?_,⟨nofun,nofun⟩,?_⟩
  · rintro _ ⟨⟩; exact clean_singleton rfl
  · rintro _ ⟨⟩; exact clean_singleton rfl
  · rintro _ ⟨⟩; exact clean_singleton rfl
  · rintro _ ⟨⟩; exact ⟨clean_singleton rfl,clean_singleton rfl⟩

def clientHeaders : Headers := Dict.empty.set turnStateHeader ['x']

theorem full_context_arrives : parseForwardedRequest sampleKeys
      (buildOwnerForwardHeaders sampleKeys clientHeaders samplePayload (fullContext ['m']))
      samplePayload ['b'] = .ok (fullContext ['m']) :=
  (forward_roundtrip sampleKeys clientHeaders samplePayload (fullContext_wellFormed ['m'])).2
    ⟨nofun,nofun,nofun,by rintro _ ⟨⟩; exact clean_singleton rfl⟩

/-- A turn state sent by the client, and a reservation without a model, each make a
genuine forward fail its signature. -/
theorem disturbed_forwards : (bareContext.WellFormed ∧ parseForwardedRequest sampleKeys
        (buildOwnerForwardHeaders sampleKeys clientHeaders samplePayload bareContext)
        samplePayload bareContext.targetInstance = .error invalidSignature) ∧
      (fullContext []).WellFormed ∧ parseForwardedRequest sampleKeys
        (buildOwnerForwardHeaders sampleKeys Dict.empty samplePayload (fullContext []))
        samplePayload (fullContext []).targetInstance = .error invalidSignature := by
  refine ⟨⟨bareContext_wellFormed,(parse_build bareContext_wellFormed).trans (if_neg ?_)⟩,
    fullContext_wellFormed [],(parse_build (fullContext_wellFormed [])).trans (if_neg ?_)⟩
  · decide +kernel
  · decide +kernel

end CodexLb.Forwarding
