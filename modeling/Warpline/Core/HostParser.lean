import Warpline.Core.Egress

/-!
# Host names (`url::Host`)

`HostCrate` collects what `validate_allowed_hosts` uses of the crate `url`. `Whatwg` is what the
URL standard says of its host parser and serialiser; the standard's check for hosts that end in a
number is spelled out.
-/

set_option autoImplicit false

namespace Warpline

structure HostCrate where
  /-- `Host::parse`. -/
  parse : Str → Option UrlHost
  /-- `Display for Host`. -/
  display : UrlHost → Str

/-- A host as `validate_allowed_hosts` sees it. -/
def HostCrate.parseHost (H : HostCrate) (host : Str) : Option Str := (H.parse host).map H.display

/-! ## Hosts that end in a number -/

def isHexDigit (c : Char) : Bool :=
  c.isDigit || ('a' ≤ c && c ≤ 'f') || ('A' ≤ c && c ≤ 'F')

/-- A decimal or octal number, or a hexadecimal one, which may lack its digits. -/
def isIpv4Number (label : Str) : Bool :=
  label != [] && label.all Char.isDigit ||
    match label with
    | '0' :: 'x' :: digits | '0' :: 'X' :: digits => digits.all isHexDigit
    | _ => false

/-- The last label is a number, where one empty last label does not count. -/
def endsInNumber (host : Str) : Bool :=
  isIpv4Number (((Str.stripSuffix host ['.']).getD host).rtakeWhile (· ≠ '.'))

/-! ## The standard -/

structure HostCrate.Whatwg (H : HostCrate) : Prop where
  empty : H.parse [] = none
  /-- The labels of a domain may be empty, all of them too. -/
  dots : ∀ n, H.parse (List.replicate (n + 1) '.') = some (.domain (List.replicate (n + 1) '.'))
  /-- A domain is serialised as it is. -/
  domain : ∀ name, H.display (.domain name) = name
  /-- What has been parsed is parsed from its serialisation again, in lower case. -/
  again : ∀ host parsed, H.parse host = some parsed → H.parse (H.display parsed) = some parsed
  lowercase : ∀ host parsed, H.parse host = some parsed →
    (H.display parsed).map Char.toLower = H.display parsed
  /-- An IPv4 address is serialised to what is parsed as that address. -/
  ipv4 : ∀ ip, H.parse (H.display (.ipv4 ip)) = some (.ipv4 ip)
  /-- The serialisation of an address ends in a digit, or in a bracket. -/
  ipv4Dot : ∀ ip, ¬['.'] <:+ H.display (.ipv4 ip)
  ipv6Dot : ∀ ip, ¬['.'] <:+ H.display (.ipv6 ip)
  /-- What ends in a number is an IPv4 address, or not a host. -/
  number : ∀ host parsed, endsInNumber host = true → H.parse host = some parsed →
    ∃ ip, parsed = .ipv4 ip
  /-- A domain with an empty last label is one without it too. -/
  root : ∀ host name, H.parse host = some (.domain (name ++ ['.'])) → name ≠ [] →
    endsInNumber name = false → H.parse name = some (.domain name)

/-- The domain `name` is more than dots, and if what comes before the dots at its end ends in a
number it is an IPv4 address spelled as the standard serialises it. -/
def HostCrate.Survives (H : HostCrate) (name : Str) : Prop :=
  ∃ stem n, name = stem ++ List.replicate n '.' ∧ ¬['.'] <:+ stem ∧ stem ≠ [] ∧
    (endsInNumber stem = true → ∃ ip, H.display (.ipv4 ip) = stem)

/-- Every domain among `hosts` survives the removal of its trailing dots. -/
def HostCrate.Storable (H : HostCrate) (hosts : List Str) : Prop :=
  ∀ host ∈ hosts, ∀ name, H.parse host = some (.domain name) → H.Survives name

end Warpline
