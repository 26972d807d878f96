import BatchEngine.Lib.IpAddress

/-!
# Scheme and host name of a URL

Python's `urlparse`, as far as the scheme and the host name go. The checks of the network
location may raise a `ValueError`, here `none`.
-/

set_option autoImplicit false

namespace Py

/-- The tables of the Unicode database that are used. -/
structure UnicodeData where
  /-- `unicodedata.normalize("NFKC", s)`. -/
  nfkc : List Char → List Char
  /-- `s.lower()`. -/
  lower : List Char → List Char

def isAscii (s : List Char) : Bool := s.all fun c => c.toNat < 128

def schemeChar (c : Char) : Bool := c.isAlphanum || c ∈ ['+', '-', '.']

/-- The scheme in lower case, and the URL behind its colon. -/
def splitScheme (url : List Char) : List Char × List Char :=
  let (scheme, rest) := partition ':' url
  if ':' ∈ url ∧ (scheme.head?.any Char.isAlpha) ∧ scheme.all schemeChar then
    (scheme.map Char.toLower, rest)
  else ([], url)

/-- The network location of a URL that continues with `//`, up to the next delimiter. -/
def splitNetloc (url : List Char) : List Char :=
  if url.take 2 = ['/', '/'] then (url.drop 2).takeWhile fun c => c ∉ ['/', '?', '#'] else []

def futureVersion (rest : List Char) : Bool :=
  let digits := rest.takeWhile fun c => (hexDigit? c).isSome
  let version := rest.drop digits.length
  digits ≠ [] && version.head? == some '.' && version.tail ≠ []

/-- `_check_bracketed_host`: a future version of the protocol, or an IPv6 address. -/
def bracketedHostOk (hostname : List Char) : Bool :=
  match hostname with
  | 'v' :: rest => futureVersion rest
  | _ =>
    match ipAddress hostname with
    | some (.v6 _) => true
    | some (.v4 _) | none => false

def bracketsOk (netloc : List Char) : Bool :=
  if '[' ∈ netloc ∧ ']' ∈ netloc then
    bracketedHostOk (partition ']' (partition '[' netloc).2).1
  else '[' ∉ netloc && ']' ∉ netloc

/-- `_checknetloc`: no delimiter that only comes about when the host name is normalised. -/
def checkNetloc (u : UnicodeData) (netloc : List Char) : Bool :=
  let n := netloc.filter fun c => c ∉ ['@', ':', '#', '?']
  isAscii netloc || u.nfkc n = n || ['/', '?', '#', '@', ':'].all fun c => c ∉ u.nfkc n

structure ParseResult where
  scheme : List Char
  netloc : List Char
  deriving DecidableEq

@[irreducible] def urlparse (u : UnicodeData) (url : String) : Option ParseResult :=
  let url := (url.toList.dropWhile fun c => c.toNat ≤ 32).filter fun c =>
    c ∉ ['\t', '\r', '\n']
  let (scheme, url) := splitScheme url
  let netloc := splitNetloc url
  if bracketsOk netloc && checkNetloc u netloc then some ⟨scheme, netloc⟩ else none

/-- The text behind the last `@`. -/
def hostinfo (netloc : List Char) : List Char := (netloc.reverse.takeWhile (· ≠ '@')).reverse

/-- `parsed.hostname`: without the brackets and the port, in lower case up to the zone. -/
def ParseResult.hostname (u : UnicodeData) (parsed : ParseResult) : Option (List Char) :=
  let info := hostinfo parsed.netloc
  let hostname :=
    if '[' ∈ info then (partition ']' (partition '[' info).2).1 else (partition ':' info).1
  if hostname = [] then none
  else some (u.lower (hostname.takeWhile (· ≠ '%')) ++ hostname.dropWhile (· ≠ '%'))

end Py
