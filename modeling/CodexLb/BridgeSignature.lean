import CodexLb.BridgeForwarding

/-!
# What a forward signature binds

The texts of a context and the digest of the payload are joined by `|` and the
whole is signed. A text may hold the separator itself, so one signature stands for
every way to cut the signed text that a receiver would read from headers.
-/
namespace CodexLb.Forwarding
open IpAddress (Text)
open PythonText

section Joining
variable {α : Type*} [DecidableEq α] {sep : α}

omit [DecidableEq α] in
theorem intercalate_cons {f : List α} {fs : List (List α)} (h : fs ≠ []) :
    [sep].intercalate (f::fs) = f++sep::[sep].intercalate fs := by
  cases fs with
  | nil => exact absurd rfl h
  | cons g gs => simp [List.intercalate]

/-- Where the first part has as many separators on both sides, it is the same. -/
theorem split_at_separator {f g r s : List α} (hcount : f.count sep = g.count sep)
    (h : f++sep::r = g++sep::s) : f = g ∧ r = s := by
  have hnone {a t u v : List α} (hcount : a.count sep = (a++t).count sep)
      (ht : sep::u = t++sep::v) : t = [] := by
    cases t with
    | nil => rfl
    | cons x t =>
      rw [List.count_append,← (List.cons.inj ht).1,List.count_cons_self] at hcount
      omega
  rcases List.append_eq_append_iff.1 h with ⟨t,rfl,ht⟩ | ⟨t,rfl,ht⟩
  · obtain rfl := hnone hcount ht
    exact ⟨(List.append_nil f).symm,(List.cons.inj ht).2⟩
  · obtain rfl := hnone hcount.symm ht
    exact ⟨List.append_nil g,(List.cons.inj ht).2.symm⟩

theorem intercalate_inj {fs gs : List (List α)} {a b : List α}
    (hcount : fs.map (List.count sep) = gs.map (List.count sep))
    (h : [sep].intercalate (fs++[a]) = [sep].intercalate (gs++[b])) : fs = gs ∧ a = b := by
  induction fs generalizing gs with
  | nil =>
    rw [List.map_eq_nil_iff.1 hcount.symm] at h ⊢
    exact ⟨rfl,by simpa [List.intercalate] using h⟩
  | cons f fs ih =>
    cases gs with
    | nil => cases hcount
    | cons g gs =>
      obtain ⟨hfg,hrest⟩ := List.cons.inj hcount
      rw [List.cons_append,List.cons_append,
        intercalate_cons (List.append_ne_nil_of_right_ne_nil _ (List.cons_ne_nil _ _)),
        intercalate_cons (List.append_ne_nil_of_right_ne_nil _ (List.cons_ne_nil _ _))] at h
      obtain ⟨hhead,htail⟩ := split_at_separator hfg h
      obtain ⟨hfields,hlast⟩ := ih hrest htail
      exact ⟨by rw [hhead,hfields],hlast⟩

end Joining

def Forwarded (k : Keys) (payload : Payload) (c : Context) : Prop :=
  ∃ headers currentInstance,
    parseForwardedRequest k headers payload currentInstance = .ok c

/-- What is optional is missing or not empty. -/
structure Context.Present (c : Context) : Prop where
  turnState : c.downstreamTurnState ≠ some []
  affinityKind : c.originalAffinityKind ≠ some []
  affinityKey : c.originalAffinityKey ≠ some []
  reservation : ∀ r ∈ c.reservation, r.reservationId ≠ []

theorem optionalHeader_ne_nil {value : Option Text} : optionalHeader value ≠ some [] := by
  intro h
  exact of_decide_eq_true (Option.filter_eq_some_iff.1 h).2 rfl

theorem present_contextFromHeaders (headers : Headers) {targetInstance : Text} :
    (contextFromHeaders headers targetInstance).Present := by
  refine ⟨optionalHeader_ne_nil,optionalHeader_ne_nil,optionalHeader_ne_nil,fun r hr => ?_⟩
  have hr' : reservationFromHeaders headers = some r := hr
  simp only [reservationFromHeaders,Option.bind_eq_bind,Option.bind_eq_some_iff] at hr'
  obtain ⟨reservationId,hid,keyId,-,model,-,hrest⟩ := hr'
  rw [← Option.some.inj hrest]
  rintro rfl
  exact optionalHeader_ne_nil hid

theorem Forwarded.present {k : Keys} {payload : Payload} {c : Context}
    (h : Forwarded k payload c) : c.Present := by
  obtain ⟨headers,currentInstance,hparse⟩ := h
  rw [parseForwardedRequest] at hparse
  simp only at hparse
  split_ifs at hparse
  rw [← Except.ok.inj hparse]
  exact present_contextFromHeaders _

theorem getD_inj {a b : Option Text} (ha : a ≠ some []) (hb : b ≠ some [])
    (h : a.getD [] = b.getD []) : a = b := by
  cases a with
  | none =>
    cases b with
    | none => rfl
    | some u => exact absurd (congrArg some h.symm) hb
  | some t =>
    cases b with
    | none => exact absurd (congrArg some h) ha
    | some u => exact congrArg some h

theorem flag_inj {a b : Bool} (h : flag a = flag b) : a = b := by
  cases a <;> cases b <;> first | rfl | cases h

theorem reservation_inj {a b : Option Reservation} (ha : ∀ r ∈ a, r.reservationId ≠ [])
    (hb : ∀ r ∈ b, r.reservationId ≠ [])
    (hid : (a.map Reservation.reservationId).getD [] = (b.map Reservation.reservationId).getD [])
    (hkey : (a.map Reservation.keyId).getD [] = (b.map Reservation.keyId).getD [])
    (hmodel : (a.map Reservation.model).getD [] = (b.map Reservation.model).getD []) : a = b := by
  cases a with
  | none =>
    cases b with
    | none => rfl
    | some r => exact absurd hid.symm (hb r rfl)
  | some q =>
    cases b with
    | none => exact absurd hid (ha q rfl)
    | some r =>
      cases q
      cases hid
      cases hkey
      cases hmodel
      rfl

theorem fields_inj {c d : Context} (hc : c.Present) (hd : d.Present) (h : c.fields = d.fields) :
    c = d := by
  rw [Context.fields,Context.fields] at h
  simp only [List.cons.injEq,and_true] at h
  obtain ⟨horigin,htarget,hflag,hturn,hkind,hkey,hid,hkeyId,hmodel⟩ := h
  have hreservation := reservation_inj hc.reservation hd.reservation hid hkeyId hmodel
  have hturn' := getD_inj hc.turnState hd.turnState hturn
  have hkind' := getD_inj hc.affinityKind hd.affinityKind hkind
  have hkey' := getD_inj hc.affinityKey hd.affinityKey hkey
  have hflag' := flag_inj hflag
  cases c
  cases horigin
  cases htarget
  cases hflag'
  cases hturn'
  cases hkind'
  cases hkey'
  cases hreservation
  rfl

/-- Two forwards with one signature are the same when the separator occurs as often in
each text of the one as in that of the other, in particular when it occurs in none. -/
theorem signature_binds_iff {k : Keys} (hsha : Function.Injective k.sha256)
    (hhmac : Function.Injective k.hmac) {p q : Payload} {c d : Context}
    (hp : Forwarded k p c) (hq : Forwarded k q d)
    (h : bridgeForwardSignature k p c = bridgeForwardSignature k q d) :
    (c = d ∧ JsonText.sorted p.json = JsonText.sorted q.json) ↔
      c.fields.map (List.count '|') = d.fields.map (List.count '|') := by
  constructor
  · rintro ⟨rfl,-⟩
    rfl
  · intro hcount
    obtain ⟨hfields,hdigest⟩ := intercalate_inj hcount (hhmac h)
    exact ⟨fields_inj hp.present hq.present hfields,
      (JsonText.dumps_eq_iff p.valid q.valid).1 (hsha hdigest)⟩

theorem forwarded_of_wellFormed {k : Keys} {payload : Payload} {c : Context}
    (hc : c.WellFormed) (hmodel : ∀ r ∈ c.reservation, Clean r.model) :
    Forwarded k payload c := by
  have hsame : received Dict.empty c = c :=
    (received_eq_iff hc).2 ⟨fun _ => rfl,fun _ => ⟨rfl,rfl⟩,fun _ => rfl,hmodel⟩
  refine ⟨buildOwnerForwardHeaders k Dict.empty payload c,c.targetInstance,?_⟩
  rw [parse_build hc,hsame,if_pos rfl]

theorem sampleKeys_injective :
    Function.Injective sampleKeys.sha256 ∧ Function.Injective sampleKeys.hmac :=
  ⟨Function.injective_id,fun _ _ h => List.append_cancel_right (List.cons.inj h).2⟩

def firstOrder : Payload := ⟨.obj [("a",.int 1),("b",.int 2)],rfl⟩

def secondOrder : Payload := ⟨.obj [("b",.int 2),("a",.int 1)],rfl⟩

/-- The order of the rows is not signed. -/
theorem swapped_rows_bound : fullContext ['m'] = fullContext ['m'] ∧
      JsonText.sorted firstOrder.json = JsonText.sorted secondOrder.json :=
  have hforwarded (payload : Payload) : Forwarded sampleKeys payload (fullContext ['m']) :=
    forwarded_of_wellFormed (fullContext_wellFormed _)
      (by rintro _ ⟨⟩; exact clean_singleton rfl)
  (signature_binds_iff sampleKeys_injective.1 sampleKeys_injective.2 (hforwarded firstOrder)
    (hforwarded secondOrder) (by decide +kernel)).2 rfl

def cutContext (turnState kind key : Text) : Context :=
  {bareContext with
    downstreamTurnState := some turnState
    originalAffinityKind := some kind
    originalAffinityKey := some key}

theorem cutContext_forwarded {turnState kind key : Text} (hturn : Clean turnState)
    (hkind : Clean kind) (hkey : Clean key) :
    Forwarded sampleKeys samplePayload (cutContext turnState kind key) := by
  refine forwarded_of_wellFormed ⟨clean_singleton rfl,clean_singleton rfl,?_,?_,?_,
    ⟨nofun,nofun⟩,nofun⟩ nofun
  · rintro _ ⟨⟩; exact hturn
  · rintro _ ⟨⟩; exact hkind
  · rintro _ ⟨⟩; exact hkey

def cutEarly : Context := cutContext ['a','|','b'] ['c'] ['d']

def cutLate : Context := cutContext ['a'] ['b'] ['c','|','d']

/-- A separator in the turn state moves to the key. -/
theorem repartitioned_forward :
    Forwarded sampleKeys samplePayload cutEarly ∧ Forwarded sampleKeys samplePayload cutLate ∧
      bridgeForwardSignature sampleKeys samplePayload cutEarly =
        bridgeForwardSignature sampleKeys samplePayload cutLate ∧ cutEarly ≠ cutLate := by
  have hpair {a b c : Char} (h : strip [a,b,c] = [a,b,c]) : Clean [a,b,c] :=
    ⟨h,List.cons_ne_nil _ _⟩
  refine ⟨cutContext_forwarded (hpair ?_) (clean_singleton rfl) (clean_singleton rfl),
    cutContext_forwarded (clean_singleton rfl) (clean_singleton rfl) (hpair ?_),?_,?_⟩
  · decide +kernel
  · decide +kernel
  · decide +kernel
  · decide +kernel

end CodexLb.Forwarding
