import BatchEngine.Lib.JsonText

/-!
# Addresses of the Internet Protocol

Python's `ipaddress`: addresses from their text, and the special networks that it knows. The
zone of an IPv6 address is read and takes no part in the rest.
-/

set_option autoImplicit false

namespace Py

inductive IPAddress where
  | v4 (ip : BitVec 32)
  | v6 (ip : BitVec 128)
  deriving DecidableEq, Repr

/-! ## Addresses from text -/

/-- `s.partition(c)`, without the separator. -/
def partition (c : Char) (s : List Char) : List Char × List Char :=
  (s.takeWhile (· ≠ c), (s.dropWhile (· ≠ c)).tail)

def parseOctet (octet : List Char) : Option ℕ :=
  if octet = [] ∨ 3 < octet.length ∨ (octet ≠ ['0'] ∧ octet.head? = some '0') then none
  else (octet.mapM digit?).bind fun ds =>
    if 255 < natOfDigits ds then none else some (natOfDigits ds)

def parseIPv4 (address : List Char) : Option (BitVec 32) :=
  let octets := address.splitOn '.'
  if octets.length ≠ 4 then none
  else (octets.mapM parseOctet).map fun values =>
    BitVec.ofNat 32 (values.foldl (fun ip octet => 256 * ip + octet) 0)

def parseHextet (hextet : List Char) : Option ℕ :=
  if hextet = [] ∨ 4 < hextet.length then none
  else (hextet.mapM hexDigit?).map fun ds => ds.foldl (fun n d => 16 * n + d) 0

/-- The parts of an IPv6 address, an IPv4 address at the end as two of them. -/
def hextetParts (address : List Char) : Option (List (List Char)) :=
  let parts := address.splitOn ':'
  if parts.length < 3 then none
  else
    match parts.getLast? with
    | some suffix =>
      if '.' ∈ suffix then
        (parseIPv4 suffix).map fun ip =>
          parts.dropLast ++ [Nat.toDigits 16 (ip.toNat / 65536), Nat.toDigits 16 (ip.toNat % 65536)]
      else some parts
    | none => none

/-- Which parts stand before and behind a `::`, and how many it leaves out. -/
def spread (parts : List (List Char)) : Option (List (List Char) × ℕ × List (List Char)) :=
  let empty := parts.head? = some []
  let emptyLast := parts.getLast? = some []
  match (List.range' 1 (parts.length - 2)).filter fun i => parts[i]? = some [] with
  | [] => if parts.length ≠ 8 ∨ empty ∨ emptyLast then none else some (parts, 0, [])
  | [skip] =>
    let hi := if empty then skip - 1 else skip
    let lo := if emptyLast then parts.length - skip - 2 else parts.length - skip - 1
    if (empty ∧ hi ≠ 0) ∨ (emptyLast ∧ lo ≠ 0) ∨ 8 ≤ hi + lo then none
    else some (parts.take hi, 8 - (hi + lo), parts.drop (parts.length - lo))
  | _ => none

def parseIPv6 (address : List Char) : Option (BitVec 128) := do
  let parts ← hextetParts address
  if 9 < parts.length then none
  let (hi, skipped, lo) ← spread parts
  let hi ← hi.mapM parseHextet
  let lo ← lo.mapM parseHextet
  let hextets := hi ++ List.replicate skipped 0 ++ lo
  return BitVec.ofNat 128 (hextets.foldl (fun ip hextet => 65536 * ip + hextet) 0)

/-- The address before the zone. -/
def splitScopeId (address : List Char) : Option (List Char) :=
  let (addr, scopeId) := partition '%' address
  if '%' ∈ address ∧ (scopeId = [] ∨ '%' ∈ scopeId) then none else some addr

/-- `ip_address(address)`; `none` is a `ValueError`. -/
def ipAddress (address : List Char) : Option IPAddress :=
  if '/' ∈ address then none
  else
    match parseIPv4 address with
    | some ip => some (.v4 ip)
    | none => ((splitScopeId address).bind parseIPv6).map .v6

/-! ## Networks -/

structure IPNetwork (w : ℕ) where
  networkAddress : BitVec w
  prefixlen : ℕ

variable {w : ℕ}

def IPNetwork.netmask (net : IPNetwork w) : BitVec w :=
  BitVec.allOnes w <<< (w - net.prefixlen)

/-- `ip in net`. -/
def IPNetwork.contains (net : IPNetwork w) (ip : BitVec w) : Bool :=
  ip &&& net.netmask == net.networkAddress

/-- `a.b.c.d/prefixlen`. -/
def net4 (a b c d : BitVec 8) (prefixlen : ℕ) : IPNetwork 32 := ⟨a ++ b ++ c ++ d, prefixlen⟩

/-- The network of the hextets, with zeros after them. -/
def net6 (hextets : List ℕ) (prefixlen : ℕ) : IPNetwork 128 where
  networkAddress := BitVec.ofNat 128
    ((hextets ++ List.replicate (8 - hextets.length) 0).foldl (fun ip h => 65536 * ip + h) 0)
  prefixlen := prefixlen

def privateNetworks4 : List (IPNetwork 32) :=
  [net4 0 0 0 0 8, net4 10 0 0 0 8, net4 127 0 0 0 8, net4 169 254 0 0 16, net4 172 16 0 0 12,
    net4 192 0 0 0 24, net4 192 0 0 170 31, net4 192 0 2 0 24, net4 192 168 0 0 16,
    net4 198 18 0 0 15, net4 198 51 100 0 24, net4 203 0 113 0 24, net4 240 0 0 0 4,
    net4 255 255 255 255 32]

def privateExceptions4 : List (IPNetwork 32) := [net4 192 0 0 9 32, net4 192 0 0 10 32]

def privateNetworks6 : List (IPNetwork 128) :=
  [net6 [0, 0, 0, 0, 0, 0, 0, 1] 128, net6 [] 128, net6 [0, 0, 0, 0, 0, 0xffff] 96,
    net6 [0x64, 0xff9b, 1] 48, net6 [0x100] 64, net6 [0x2001] 23, net6 [0x2001, 0xdb8] 32,
    net6 [0x2002] 16, net6 [0xfc00] 7, net6 [0xfe80] 10]

def privateExceptions6 : List (IPNetwork 128) :=
  [net6 [0x2001, 1, 0, 0, 0, 0, 0, 1] 128, net6 [0x2001, 1, 0, 0, 0, 0, 0, 2] 128,
    net6 [0x2001, 3] 32, net6 [0x2001, 4, 0x112] 48, net6 [0x2001, 0x20] 28,
    net6 [0x2001, 0x30] 28]

def reservedNetworks6 : List (IPNetwork 128) :=
  [net6 [] 8, net6 [0x100] 8, net6 [0x200] 7, net6 [0x400] 6, net6 [0x800] 5, net6 [0x1000] 4,
    net6 [0x4000] 3, net6 [0x6000] 3, net6 [0x8000] 3, net6 [0xa000] 3, net6 [0xc000] 3,
    net6 [0xe000] 4, net6 [0xf000] 5, net6 [0xf800] 6, net6 [0xfe00] 9]

namespace IPAddress

def privateV4 (ip : BitVec 32) : Bool :=
  privateNetworks4.any (·.contains ip) && privateExceptions4.all (!·.contains ip)

/-- An IPv6 address that an IPv4 address is mapped to is as private as that address. -/
def isPrivate : IPAddress → Bool
  | v4 ip => privateV4 ip
  | v6 ip =>
    if ip >>> 32 = 0xffff then privateV4 (ip.setWidth 32)
    else privateNetworks6.any (·.contains ip) && privateExceptions6.all (!·.contains ip)

def isLoopback : IPAddress → Bool
  | v4 ip => (net4 127 0 0 0 8).contains ip
  | v6 ip => ip == 1

def isLinkLocal : IPAddress → Bool
  | v4 ip => (net4 169 254 0 0 16).contains ip
  | v6 ip => (net6 [0xfe80] 10).contains ip

def isReserved : IPAddress → Bool
  | v4 ip => (net4 240 0 0 0 4).contains ip
  | v6 ip => reservedNetworks6.any (·.contains ip)

def isMulticast : IPAddress → Bool
  | v4 ip => (net4 224 0 0 0 4).contains ip
  | v6 ip => (net6 [0xff00] 8).contains ip

end IPAddress

end Py
