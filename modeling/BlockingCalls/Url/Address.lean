import BlockingCalls.Decimal.Digits
import BlockingCalls.Text.Quoted
import BlockingCalls.Text.Segments

/-!
# Addresses between brackets

The authority of a URL may hold an address between square brackets. It has to be an address of IP version 6, or of
a future version, which starts with a `v`. A user with `@` may stand before it, and a colon with some text behind it.
-/

namespace BlockingCalls.Url

open Text (splitOn)

/-- Why a URL cannot be taken apart. -/
inductive Fault where
  | misplacedBrackets
  | futureAddress
  | version4Address
  | unknownAddress (host : String)
  | unsafeAuthority (authority : String)
  deriving Repr, BEq, DecidableEq

def Fault.message : Fault → String
  | .misplacedBrackets => "Invalid IPv6 URL"
  | .futureAddress => "IPvFuture address is invalid"
  | .version4Address => "An IPv4 address cannot be in brackets"
  | .unknownAddress host => Text.quoted host ++ " does not appear to be an IPv4 or IPv6 address"
  | .unsafeAuthority authority =>
    "netloc '" ++ authority ++ "' contains invalid characters under NFKC normalization"

def isHexDigit (c : Char) : Bool :=
  c.isDigit || decide ('a' ≤ c ∧ c ≤ 'f') || decide ('A' ≤ c ∧ c ≤ 'F')

/-- One of the four numbers of a version 4 address: up to 255, without leading zeros. -/
def isOctet (cs : List Char) : Bool :=
  !cs.isEmpty && cs.all Char.isDigit && decide (cs.length ≤ 3) && (cs == ['0'] || cs.head? != some '0') &&
    decide (Decimal.ofDigits cs ≤ 255)

def isVersion4 (cs : List Char) : Bool :=
  let octets := splitOn '.' cs
  octets.length == 4 && octets.all isOctet

/-- One of the eight numbers of a version 6 address. -/
def isHextet (cs : List Char) : Bool :=
  !cs.isEmpty && cs.all isHexDigit && decide (cs.length ≤ 4)

/-- The hextets of an address, with a version 4 address at the end counted as two of them. -/
def hextets (parts : List (List Char)) : Option (List (List Char)) :=
  match parts.getLast? with
  | some last =>
    if last.contains '.' then
      if isVersion4 last then some (parts.dropLast ++ [['0'], ['0']]) else none
    else some parts
  | none => some parts

/-- Eight hextets, or fewer with one gap `::` that stands for at least one. A single colon at either end is allowed as
part of the gap only. -/
def isHextetList (parts : List (List Char)) : Bool :=
  let gaps := (List.range parts.length).filter fun i =>
    decide (0 < i ∧ i + 1 < parts.length) && parts[i]? == some []
  match gaps with
  | [] => parts.length == 8 && parts.all isHextet
  | [gap] =>
    let before := parts.take gap
    let after := parts.drop (gap + 1)
    let high := if before.head? == some [] then before.drop 1 else before
    let low := if after.getLast? == some [] then after.dropLast else after
    (before.head? != some [] || high.isEmpty) && (after.getLast? != some [] || low.isEmpty) &&
      decide (high.length + low.length < 8) && high.all isHextet && low.all isHextet
  | _ => false

/-- An address of version 6, with a scope behind `%` if there is one. -/
def isVersion6 (cs : List Char) : Bool :=
  let (address, scope) := Text.cutFirst '%' cs
  let parts := splitOn ':' address
  (match scope with
    | none => true
    | some scope => !scope.isEmpty && !scope.contains '%') &&
  decide (3 ≤ parts.length) &&
  (match hextets parts with
    | none => false
    | some parts => decide (parts.length ≤ 9) && isHextetList parts)

/-- An address of a future version: `v`, a hexadecimal number, a dot and some text. -/
def isFuture (cs : List Char) : Bool :=
  let digits := (cs.drop 1).takeWhile isHexDigit
  match (cs.drop 1).dropWhile isHexDigit with
  | '.' :: _ :: _ => !digits.isEmpty
  | _ => false

def checkAddress (host : List Char) : Except Fault Unit :=
  if host.head? == some 'v' then
    if isFuture host then .ok () else .error .futureAddress
  else if isVersion4 host then .error .version4Address
  else if isVersion6 host then .ok ()
  else .error (.unknownAddress (String.ofList host))

/-- Checks the host of an authority that has brackets somewhere. The host is what stands between brackets, with
nothing before them and nothing but a colon directly behind them; if all brackets belong to the user, the host has to be
such an address too. -/
def checkBracketed (authority : List Char) : Except Fault Unit :=
  let location := Text.afterLast '@' authority
  match Text.cutFirst '[' location with
  | (before, some bracketed) =>
    let (host, behind) := Text.cutFirst ']' bracketed
    if before.isEmpty && (behind.getD []).head?.all (· == ':') then checkAddress host
    else .error .misplacedBrackets
  | (_, none) => checkAddress (Text.cutFirst ':' location).1

end BlockingCalls.Url
