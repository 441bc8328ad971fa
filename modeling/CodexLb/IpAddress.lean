import CodexLb.PythonText

/-!
# Internet addresses as text

Text is a list of characters. `ipAddress` reads an address the way the
`ipaddress` module of the language does: as four decimal octets, or else as
hextets with at most one `::`, an optional dotted suffix and an optional scope
after `%`. An address is its version and its number; the scope is checked and
then forgotten, because no network looks at it.

A network is any pair of a number and a mask. Reading a network from text is
not modelled.
-/
namespace CodexLb.IpAddress

abbrev Text := List Char

inductive Version where
  | v4
  | v6
  deriving DecidableEq, Repr

structure Address where
  version : Version
  ip : ℕ
  deriving DecidableEq, Repr

structure Network where
  version : Version
  networkAddress : ℕ
  netmask : ℕ
  deriving DecidableEq, Repr

def Network.contains (n : Network) (a : Address) : Bool :=
  a.version = n.version && a.ip &&& n.netmask = n.networkAddress

def decimalDigit (c : Char) : Option ℕ :=
  if '0' ≤ c ∧ c ≤ '9' then some (c.toNat - '0'.toNat) else none

def hexDigit (c : Char) : Option ℕ :=
  if '0' ≤ c ∧ c ≤ '9' then some (c.toNat - '0'.toNat)
  else if 'a' ≤ c ∧ c ≤ 'f' then some (c.toNat - 'a'.toNat+10)
  else if 'A' ≤ c ∧ c ≤ 'F' then some (c.toNat - 'A'.toNat+10)
  else none

/-- A numeral without a sign; the empty text is none. -/
def numeral (base : ℕ) (digit : Char → Option ℕ) (t : Text) : Option ℕ :=
  if t.isEmpty then none else (t.mapM digit).map (List.foldl (fun n d => n*base+d) 0)

variable (t : Text)

def parseOctet : Option ℕ :=
  if t.length > 3 then none
  else if t ≠ ['0'] ∧ t.head? = some '0' then none
  else (numeral 10 decimalDigit t).filter (· ≤ 255)

def ipv4Int : Option ℕ :=
  let octets := t.splitOn '.'
  if octets.length ≠ 4 then none
  else (octets.mapM parseOctet).map (List.foldl (fun n o => n*256+o) 0)

def ipv4Address : Option Address :=
  if t.contains '/' then none else (ipv4Int t).map (Address.mk .v4)

def parseHextet : Option ℕ :=
  if t.length > 4 then none else numeral 16 hexDigit t

def splitScopeId : Option Text :=
  match t.span (· ≠ '%') with
  | (addr,[]) => some addr
  | (addr,_::scope) => if scope.isEmpty || scope.contains '%' then none else some addr

/-- A dotted suffix becomes the last two hextets. -/
def expandSuffix (parts : List Text) : Option (List Text) :=
  match parts.getLast? with
  | none => some parts
  | some last =>
    if last.contains '.' then
      (ipv4Address last).map fun a =>
        parts.dropLast++[Nat.toDigits 16 ((a.ip >>> 16) &&& 0xFFFF),
          Nat.toDigits 16 (a.ip &&& 0xFFFF)]
    else some parts

/-- How many parts stand before the `::`, how many after it, and how many
hextets it stands for. -/
def hextetLayout (parts : List Text) : Option (ℕ × ℕ × ℕ) :=
  let inner := (List.range (parts.length-1)).filter fun i => 1 ≤ i && parts[i]? = some []
  let openFirst := parts.head? = some []
  let openLast := parts.getLast? = some []
  match inner with
  | [] =>
    if parts.length ≠ 8 || openFirst || openLast then none else some (parts.length,0,0)
  | [skip] =>
    let hi := if openFirst then skip-1 else skip
    let lo := if openLast then parts.length-skip-2 else parts.length-skip-1
    if (openFirst && hi ≠ 0) || (openLast && lo ≠ 0) || hi+lo ≥ 8 then none
    else some (hi,lo,8-(hi+lo))
  | _ => none

def joinHextets (start : ℕ) (parts : List Text) : Option ℕ :=
  (parts.mapM parseHextet).map (List.foldl (fun n h => (n <<< 16) ||| h) start)

def ipv6Int : Option ℕ := do
  let parts := t.splitOn ':'
  if parts.length < 3 then none
  else
    let parts ← expandSuffix parts
    if parts.length > 9 then none
    else
      let (hi,lo,skipped) ← hextetLayout parts
      let high ← joinHextets 0 (parts.take hi)
      joinHextets (high <<< (16*skipped)) (parts.drop (parts.length-lo))

def ipv6Address : Option Address :=
  if t.contains '/' then none
  else (splitScopeId t).bind fun addr => (ipv6Int addr).map (Address.mk .v6)

def ipAddress : Option Address := (ipv4Address t).or (ipv6Address t)

theorem ne_nil_of_ipAddress {t : Text} (h : (ipAddress t).isSome = true) : t ≠ [] := by
  rintro rfl
  exact absurd h (by decide +kernel)

example : ipAddress "::ffff:10.0.0.1".toList = some ⟨.v6,0xffff0a000001⟩ := by decide +kernel

example : ipAddress "fe80::1%eth0".toList = some ⟨.v6,0xfe80 <<< 112 ||| 1⟩ := by decide +kernel

example : ipAddress "10.0.0.01".toList = none := by decide +kernel

end CodexLb.IpAddress
