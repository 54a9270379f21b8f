import AgentReply.Url.Idna
import AgentReply.Url.Percent

/-!
# Hosts

The host of a URL: a domain, an address of four octets or one of eight pieces. A domain is kept in ASCII;
an address in its one written form.
-/

namespace AgentReply.Url

inductive HostError where
  | emptyHost
  | invalidDomain
  | invalidIpv4
  | invalidIpv6
  | invalidCharacter
deriving DecidableEq, Repr

inductive Host where
  | domain (name : List Char)
  | ipv4 (address : Nat)
  | ipv6 (pieces : List Nat)
deriving DecidableEq, Repr

namespace Host

/-! ### Addresses of four octets -/

/-- The value of digits to a base; `none` if there is another character. -/
def numeral? (base : Nat) (digits : List Char) : Option Nat :=
  digits.foldlM (fun n c ↦
    match hexValue? (UInt8.ofNat (min c.toNat 0xFF)) with
    | some d => if d < base then some (base * n + d) else none
    | none => none) 0

/-- A part of an address: decimal, octal after `0`, or hexadecimal after `0x`. -/
def ipv4Part? (part : List Char) : Option Nat :=
  match part with
  | [] => none
  | '0' :: 'x' :: digits | '0' :: 'X' :: digits => numeral? 16 digits
  | '0' :: c :: digits => numeral? 8 (c :: digits)
  | digits => numeral? 10 digits

/-- The parts of a dotted text without an empty one at the end. -/
def dottedParts (name : List Char) : List (List Char) :=
  let parts := name.splitOn '.'
  if parts.getLast? == some [] then parts.dropLast else parts

/-- Whether a domain is taken for an address: its last part is a number. -/
def endsInNumber (name : List Char) : Bool :=
  match (dottedParts name).getLast? with
  | some part => !part.isEmpty && (part.all Char.isDigit || (ipv4Part? part).isSome)
  | none => false

/-- The last part of an address fills the octets that the other parts leave. -/
def ipv4? (name : List Char) : Option Host := do
  let numbers ← (dottedParts name).mapM ipv4Part?
  let last ← numbers.getLast?
  let octets := numbers.dropLast
  if octets.length ≤ 3 && octets.all (· < 256) && last < Nat.pow 256 (4 - octets.length) then
    let high := octets.foldl (fun n octet ↦ 256 * n + octet) 0
    some (.ipv4 (high * Nat.pow 256 (4 - octets.length) + last))
  else none

def writeIpv4 (address : Nat) : List Char :=
  let octet (n : Nat) : List Char := (toString (address / Nat.pow 256 n % 256)).toList
  octet 3 ++ '.' :: octet 2 ++ '.' :: octet 1 ++ '.' :: octet 0

/-! ### Addresses of eight pieces -/

/-- The octets of a dotted tail, as two pieces. -/
def ipv4Tail? (s : List Char) : Option (List Nat) := do
  let octets ← (s.splitOn '.').mapM fun part ↦
    if part.isEmpty || (part.length > 1 && part.head? == some '0') then none
    else (numeral? 10 part).filter (· < 256)
  match octets with
  | [a, b, c, d] => some [256 * a + b, 256 * c + d]
  | _ => none

/-- The pieces between colons, the last of which may be dotted. -/
def pieces? (s : List Char) : Option (List Nat) :=
  if s.isEmpty then some []
  else do
    let parts := s.splitOn ':'
    let heads ← parts.dropLast.mapM hexPiece?
    let last ← parts.getLast?
    if last.contains '.' then (ipv4Tail? last).map (heads ++ ·)
    else (hexPiece? last).map fun piece ↦ heads ++ [piece]
where
  hexPiece? (part : List Char) : Option Nat :=
    if part.isEmpty || part.length > 4 then none else numeral? 16 part

/-- Splits at the first `::`. -/
def splitCompressed? : List Char → Option (List Char × List Char)
  | ':' :: ':' :: s => some ([], s)
  | c :: s => (splitCompressed? s).map fun (before, after) ↦ (c :: before, after)
  | [] => none

/-- Eight pieces, or fewer with one `::` for the zeros that are left out. -/
def ipv6? (s : List Char) : Option Host :=
  match splitCompressed? s with
  | none => do
    let pieces ← pieces? s
    if pieces.length = 8 then some (.ipv6 pieces) else none
  | some (before, after) => do
    let heads ← if before.contains '.' then none else pieces? before
    let tails ← pieces? after
    if heads.length + tails.length ≤ 7 then
      some (.ipv6 (heads ++ List.replicate (8 - heads.length - tails.length) 0 ++ tails))
    else none

/-- The number of zeros at the head of some pieces. -/
def zeros (pieces : List Nat) : Nat := (pieces.takeWhile (· == 0)).length

/-- The place and length of the first longest run of two or more zeros. -/
def longestZeros (pieces : List Nat) : Option (Nat × Nat) :=
  let runs := (List.range pieces.length).map fun i ↦ (i, zeros (pieces.drop i))
  let best := runs.foldl (fun (best : Nat × Nat) run ↦ if best.2 < run.2 then run else best) (0, 1)
  if best.2 < 2 then none else some best

def writePieces (pieces : List Nat) : List Char :=
  [':'].intercalate (pieces.map (Nat.toDigits 16))

def writeIpv6 (pieces : List Nat) : List Char :=
  match longestZeros pieces with
  | none => writePieces pieces
  | some (place, length) =>
    writePieces (pieces.take place) ++ ':' :: ':' :: writePieces (pieces.drop (place + length))

/-! ### Reading and writing -/

/-- The host of a URL with a special scheme. -/
def parse [Idna] (s : List Char) : Except HostError Host :=
  match s with
  | [] => .error .emptyHost
  | '[' :: inner =>
    if inner.getLast? == some ']' then (ipv6? inner.dropLast).elim (.error .invalidIpv6) .ok
    else .error .invalidIpv6
  | s =>
    match (Utf8.decode? (percentDecode (Utf8.encode s))).bind fun name ↦ Idna.toAscii? name.toList with
    | none => .error .invalidDomain
    | some [] => .error .emptyHost
    | some name =>
      if endsInNumber name then (ipv4? name).elim (.error .invalidIpv4) .ok
      else .ok (.domain name)

/-- The host of a URL with any other scheme; it may be empty. -/
def parseUnknown (s : List Char) : Except HostError Host :=
  match s with
  | '[' :: inner =>
    if inner.getLast? == some ']' then (ipv6? inner.dropLast).elim (.error .invalidIpv6) .ok
    else .error .invalidIpv6
  | s =>
    let isForbidden (c : Char) : Bool :=
      c == '\x00' || "\t\n\r #/:<>?@[\\]^|".toList.contains c
    if s.any isForbidden then .error .invalidCharacter
    else .ok (.domain (percentEncode controlSet s))

def write : Host → List Char
  | .domain name => name
  | .ipv4 address => writeIpv4 address
  | .ipv6 pieces => '[' :: writeIpv6 pieces ++ [']']

end Host
end AgentReply.Url
