import CodexLb.IpAddress

/-!
# The client address behind trusted proxies

The firewall and the locality check each resolve the address of a client whose
connection comes from a trusted proxy. Both read `X-Forwarded-For` from the
right: the walk leaves an entry only while the next one is trusted. They differ
in what a malformed header means. The firewall falls back to the socket
address, and the locality check refuses to answer.

The whole header is validated before the walk, so text far to the left of the
deciding entry matters after all. The result is the entry that the outermost
trusted proxy appended exactly when every entry of the client's own text is an
address.

Header names are compared in lower case by the framework; a header is looked
up here by its constructor.
-/
namespace CodexLb.ClientIp
open IpAddress PythonText

inductive Header where
  | xForwardedFor
  | xRealIp
  | trueClientIp
  | cfConnectingIp
  | forwarded
  deriving DecidableEq, Repr

abbrev Headers := Header → Option Text

def isTrustedProxySource (host : Text) (nets : List Network) : Bool :=
  if nets.isEmpty then false
  else match ipAddress host with
    | none => false
    | some source => nets.any fun n => n.contains source

def isValidIp (value : Text) : Bool := (ipAddress value).isSome

/-- The walk from the right over `current` and the entries before it. -/
def walkChain (nets : List Network) (resolved current : Text) : List Text → Text
  | [] => resolved
  | previous::rest =>
    if isTrustedProxySource current nets then walkChain nets previous previous rest else current

def hopsOf (forwardedFor : Text) : List Text := (forwardedFor.splitOn ',').map strip

/-- The walk over the whole chain, which ends with the socket address. -/
def resolveChain (socketIp : Text) (hops : List Text) (nets : List Network) : Text :=
  walkChain nets socketIp socketIp hops.reverse

namespace Firewall

def resolveClientIpFromXffChain (socketIp forwardedFor : Text) (nets : List Network) :
    Option Text :=
  let hops := hopsOf forwardedFor
  if hops.isEmpty then none
  else if hops.any fun e => !isValidIp e then none
  else some (resolveChain socketIp hops nets)

def resolveConnectionClientIp (headers : Headers) (socketIp : Option Text)
    (trustProxyHeaders : Bool) (nets : List Network) : Option Text :=
  match socketIp with
  | none => none
  | some socket =>
    if trustProxyHeaders && !socket.isEmpty && isTrustedProxySource socket nets then
      match headers .xForwardedFor with
      | none => some socket
      | some forwardedFor =>
        if forwardedFor.isEmpty then some socket
        else (resolveClientIpFromXffChain socket forwardedFor nets).or (some socket)
    else some socket

end Firewall

namespace Locality

inductive Fault where
  | valueError
  deriving DecidableEq, Repr

def resolveClientIpFromXffChain (socketIp forwardedFor : Text) (nets : List Network) :
    Except Fault (Option Text) :=
  let hops := hopsOf forwardedFor
  if hops.isEmpty then .ok none
  else if hops.any fun e => !isValidIp e then .error .valueError
  else .ok (some (resolveChain socketIp hops nets))

/-- The address of a `for=` item, once it is found. -/
def forwardedItem (item : Text) : Option Text :=
  let candidate := stripWhere (· = '"') (strip (item.drop 4))
  let candidate := if candidate.head? = some '[' && candidate.getLast? = some ']'
    then (candidate.drop 1).dropLast else candidate
  if candidate.head? = some '_' then none
  else if isValidIp candidate then some candidate else none

def isForItem (item : Text) : Bool := (item.take 4).map Char.toLower = "for=".toList

def resolveForwardedHeaderIp (forwarded : Text) : Option Text :=
  let items := ((forwarded.splitOn ',').flatMap fun segment => segment.splitOn ';').map strip
  (items.find? isForItem).bind forwardedItem

/-- The single-address headers in the order they are tried, then `Forwarded`. -/
def resolveOtherHeaders (headers : Headers) : Option Text :=
  match ([.xRealIp,.trueClientIp,.cfConnectingIp].filterMap headers).find? (!·.isEmpty) with
  | some value => if isValidIp (strip value) then some (strip value) else none
  | none => match headers .forwarded with
      | none => none
      | some value => if value.isEmpty then none else resolveForwardedHeaderIp value

def resolveConnectionClientIp (headers : Headers) (socketIp : Option Text)
    (trustProxyHeaders : Bool) (nets : List Network) : Option Text :=
  match socketIp with
  | none => none
  | some socket =>
    if trustProxyHeaders && !socket.isEmpty && isTrustedProxySource socket nets then
      match headers .xForwardedFor with
      | none => resolveOtherHeaders headers
      | some forwardedFor =>
        if forwardedFor.isEmpty then resolveOtherHeaders headers
        else match resolveClientIpFromXffChain socket forwardedFor nets with
          | .error _ => none
          | .ok (some resolved) => some resolved
          | .ok none => resolveOtherHeaders headers
    else some socket

end Locality

theorem isValidIp_of_trusted {host : Text} (h : isTrustedProxySource host nets = true) :
    isValidIp host = true := by
  unfold isTrustedProxySource at h
  split_ifs at h
  unfold isValidIp
  split at h
  · cases h
  · rename_i source hs
    rw [hs]
    rfl

/-- The entries that the proxies append to whatever the client sent: one address
outside the trusted networks, then the trusted proxies themselves. -/
structure Appended (nets : List Network) where
  hop : Text
  proxies : List Text
  hop_entry : ',' ∉ hop
  proxies_entry : ∀ p ∈ proxies, ',' ∉ p
  hop_valid : isValidIp (strip hop) = true
  hop_outside : isTrustedProxySource (strip hop) nets = false
  proxies_trusted : ∀ p ∈ proxies, isTrustedProxySource (strip p) nets = true

namespace Appended
variable {nets : List Network} (a : Appended nets)

def entries : List Text := a.hop::a.proxies

variable (client : Option Text)

/-- The header as the server sees it, with the client's own text first if the
client sent the header at all. -/
def header : Text :=
  match client with
  | none => [','].intercalate a.entries
  | some c => c ++ ','::[','].intercalate a.entries

theorem splitOn_entries : ([','].intercalate a.entries).splitOn ',' = a.entries :=
  List.splitOn_intercalate ',' (by
    intro e he
    rcases List.mem_cons.mp he with rfl | he
    · exact a.hop_entry
    · exact a.proxies_entry e he) (List.cons_ne_nil _ _)

theorem hopsOf_header :
    hopsOf (a.header client) = (client.elim [] hopsOf)++a.entries.map strip := by
  cases client with
  | none => simp only [header,hopsOf,splitOn_entries,Option.elim_none,List.nil_append]
  | some c =>
    simp only [header,hopsOf,Option.elim_some]
    rw [List.splitOn_eq_splitOnP,List.splitOnP_append_cons c _ (by simp),
      ← List.splitOn_eq_splitOnP,← List.splitOn_eq_splitOnP,splitOn_entries,List.map_append]

theorem entries_valid : ∀ e ∈ a.entries.map strip, isValidIp e = true := by
  intro e he
  obtain ⟨x,hx,rfl⟩ := List.mem_map.mp he
  rcases List.mem_cons.mp hx with rfl | hp
  · exact a.hop_valid
  · exact isValidIp_of_trusted (a.proxies_trusted x hp)

/-- Some entry of the header is malformed exactly when the client's own text
has a malformed one. -/
theorem any_invalid : ((hopsOf (a.header client)).any fun e => !isValidIp e) =
      ((client.elim [] hopsOf).any fun e => !isValidIp e) := by
  have hnone : ((a.entries.map strip).any fun e => !isValidIp e) = false := by
    rw [List.any_eq_false]
    intro e he
    simp [a.entries_valid e he]
  rw [hopsOf_header,List.any_append,hnone,Bool.or_false]

theorem hopsOf_header_ne_nil : (hopsOf (a.header client)).isEmpty = false := by
  rw [hopsOf_header]
  simp [entries]

theorem header_ne_nil : (a.header client).isEmpty = false := by
  cases client with
  | some c => simp [header]
  | none =>
    have hhop : a.hop ≠ [] := by
      intro he
      have hv := a.hop_valid
      rw [he] at hv
      exact ne_nil_of_ipAddress hv rfl
    cases hp : a.proxies <;>
      simp [header,entries,hp,List.intercalate,hhop]

end Appended

variable {rest : List Text}

theorem walkChain_trusted {x : Text} {ps : List Text} (hx : isTrustedProxySource x nets = true)
    (hps : ∀ p ∈ ps, isTrustedProxySource p nets = true) (h : Text) :
    walkChain nets x x (ps++h::rest) = walkChain nets h h rest := by
  induction ps generalizing x with
  | nil => simp only [List.nil_append,walkChain,hx,if_true]
  | cons p ps ih =>
    simp only [List.cons_append,walkChain,hx,if_true]
    exact ih (hps p (List.mem_cons_self ..)) fun q hq => hps q (List.mem_cons_of_mem _ hq)

theorem walkChain_outside {h : Text} (ho : isTrustedProxySource h nets = false) :
    walkChain nets h h rest = h := by
  cases rest with
  | nil => rfl
  | cons p rest => simp only [walkChain,ho,Bool.false_eq_true,if_false]

variable {nets : List Network} {socket : Text}

/-- Whatever stands before them, the walk ends at the appended hop. -/
theorem resolveChain_appended (hs : isTrustedProxySource socket nets = true) {a : Appended nets}
    {before : List Text} :
    resolveChain socket (before++a.entries.map strip) nets = strip a.hop := by
  have hrev : (before++a.entries.map strip).reverse =
      (a.proxies.map strip).reverse++strip a.hop::before.reverse := by
    simp [Appended.entries]
  rw [resolveChain,hrev,walkChain_trusted hs,walkChain_outside a.hop_outside]
  intro p hp
  obtain ⟨x,hx,rfl⟩ := List.mem_map.mp (List.mem_reverse.mp hp)
  exact a.proxies_trusted x hx

/-- The client's text, entry by entry, is made of addresses. -/
def WellFormed (client : Option Text) : Prop :=
  ∀ c ∈ client, ∀ e ∈ hopsOf c, isValidIp e = true

theorem any_invalid_eq_false_iff {client : Option Text} :
    ((client.elim [] hopsOf).any fun e => !isValidIp e) = false ↔ WellFormed client := by
  cases client with
  | none => simp [WellFormed]
  | some c => simp [WellFormed,List.any_eq_false]

section
variable (hs : isTrustedProxySource socket nets = true) (a : Appended nets)
include hs a

theorem firewall_resolve (headers : Headers) (client : Option Text)
    (hx : headers .xForwardedFor = some (a.header client)) :
    Firewall.resolveConnectionClientIp headers (some socket) true nets =
      if (client.elim [] hopsOf).any fun e => !isValidIp e then some socket
      else some (strip a.hop) := by
  have hne : socket.isEmpty = false := by
    simpa using ne_nil_of_ipAddress (isValidIp_of_trusted hs)
  simp only [Firewall.resolveConnectionClientIp,hne,hs,hx,a.header_ne_nil,Bool.not_false,
    Bool.and_self,if_true,Bool.false_eq_true,if_false,Firewall.resolveClientIpFromXffChain,
    a.hopsOf_header_ne_nil,a.any_invalid]
  split
  · rfl
  · rw [a.hopsOf_header,resolveChain_appended hs]
    rfl

theorem locality_resolve (headers : Headers) (client : Option Text)
    (hx : headers .xForwardedFor = some (a.header client)) :
    Locality.resolveConnectionClientIp headers (some socket) true nets =
      if (client.elim [] hopsOf).any fun e => !isValidIp e then none
      else some (strip a.hop) := by
  have hne : socket.isEmpty = false := by
    simpa using ne_nil_of_ipAddress (isValidIp_of_trusted hs)
  simp only [Locality.resolveConnectionClientIp,hne,hs,hx,a.header_ne_nil,Bool.not_false,
    Bool.and_self,if_true,Bool.false_eq_true,if_false,Locality.resolveClientIpFromXffChain,
    a.hopsOf_header_ne_nil,a.any_invalid]
  by_cases hc : ((client.elim [] hopsOf).any fun e => !isValidIp e) = true
  · simp only [hc,if_true]
  · simp only [hc]
    rw [a.hopsOf_header,resolveChain_appended hs]
    simp

theorem socket_ne_hop : socket ≠ strip a.hop := by
  rintro rfl
  rw [a.hop_outside] at hs
  cases hs

end

/-- Both copies return the appended hop exactly when the client's text, if there
is any, is made of addresses. -/
theorem resolves_to_hop_iff (hs : isTrustedProxySource socket nets = true) (a : Appended nets)
    (headers : Headers) (client : Option Text)
    (hx : headers .xForwardedFor = some (a.header client)) :
    (Firewall.resolveConnectionClientIp headers (some socket) true nets = some (strip a.hop) ↔
        WellFormed client) ∧
      (Locality.resolveConnectionClientIp headers (some socket) true nets = some (strip a.hop) ↔
        WellFormed client) := by
  rw [firewall_resolve hs a headers client hx,locality_resolve hs a headers client hx,
    ← any_invalid_eq_false_iff]
  cases (client.elim [] hopsOf).any fun e => !isValidIp e with
  | false => simp
  | true => simp [socket_ne_hop hs a]

/-- The network `10.0.0.0/8`. -/
def privateNet : Network := ⟨.v4,0x0a000000,0xff000000⟩

def sampleAppended : Appended [privateNet] where
  hop := " 203.0.113.7".toList
  proxies := [" 10.0.0.2".toList]
  hop_entry := by decide
  proxies_entry := by decide
  hop_valid := by decide +kernel
  hop_outside := by decide +kernel
  proxies_trusted := by decide +kernel

def onlyForwardedFor (value : Text) : Headers
  | .xForwardedFor => some value
  | _ => none

theorem forged_address_is_ignored : Firewall.resolveConnectionClientIp
        (onlyForwardedFor (sampleAppended.header (some "10.9.9.9".toList)))
        (some "10.0.0.1".toList) true [privateNet] = some "203.0.113.7".toList ∧
      Locality.resolveConnectionClientIp
        (onlyForwardedFor (sampleAppended.header (some "10.9.9.9".toList)))
        (some "10.0.0.1".toList) true [privateNet] = some "203.0.113.7".toList := by
  have hwf : WellFormed (some "10.9.9.9".toList) := by
    rintro c ⟨rfl⟩
    decide +kernel
  have h := resolves_to_hop_iff (by decide +kernel : isTrustedProxySource "10.0.0.1".toList
    [privateNet] = true) sampleAppended (onlyForwardedFor (sampleAppended.header
      (some "10.9.9.9".toList))) (some "10.9.9.9".toList) rfl
  exact ⟨h.1.mpr hwf,h.2.mpr hwf⟩

/-- With the text `unknown` before the same entries, the firewall sees the proxy
and the locality check sees nobody. -/
theorem malformed_prefix_hides_hop : Firewall.resolveConnectionClientIp
        (onlyForwardedFor (sampleAppended.header (some "unknown".toList)))
        (some "10.0.0.1".toList) true [privateNet] = some "10.0.0.1".toList ∧
      Locality.resolveConnectionClientIp
        (onlyForwardedFor (sampleAppended.header (some "unknown".toList)))
        (some "10.0.0.1".toList) true [privateNet] = none := by
  decide +kernel

end CodexLb.ClientIp
