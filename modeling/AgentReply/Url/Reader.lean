import AgentReply.Url.Basic

/-!
# Reading URLs

Absolute URLs as browsers read them: control characters and blanks around a URL and line breaks within it
do not count, a URL with a special scheme may have any number of slashes before its host and backslashes
for slashes, and `.` and `..` are taken out of the path.
-/

namespace AgentReply.Url

inductive ParseError where
  | noScheme
  | invalidPort
  | host (error : HostError)
deriving DecidableEq, Repr

def ParseError.message : ParseError → String
  | .noScheme => "relative URL without a base"
  | .invalidPort => "invalid port number"
  | .host .emptyHost => "empty host"
  | .host .invalidDomain => "invalid international domain name"
  | .host .invalidIpv4 => "invalid IPv4 address"
  | .host .invalidIpv6 => "invalid IPv6 address"
  | .host .invalidCharacter => "invalid domain character"

def significant (s : List Char) : List Char :=
  let isOuter (c : Char) : Bool := c.toNat ≤ 0x20
  let trimmed := ((s.dropWhile isOuter).reverse.dropWhile isOuter).reverse
  trimmed.filter fun c ↦ c != '\t' && c != '\n' && c != '\r'

def isSlash (special : Bool) (c : Char) : Bool := c == '/' || (special && c == '\\')

/-- The characters that end the host of a URL. -/
def endsAuthority (special : Bool) (c : Char) : Bool := isSlash special c || c == '?' || c == '#'

/-! ### Paths -/

def splitSegments (special : Bool) : List Char → List (List Char)
  | [] => [[]]
  | c :: s =>
    match splitSegments special s with
    | segment :: segments =>
      if isSlash special c then [] :: segment :: segments else (c :: segment) :: segments
    | [] => [[c]]

/-- The number of dots that a segment stands for, if it is a segment of dots. -/
def dots (segment : List Char) : Option Nat :=
  match segment.map Char.toLower with
  | ['.'] | ['%', '2', 'e'] => some 1
  | ['.', '.'] | ['%', '2', 'e', '.'] | ['.', '%', '2', 'e']
  | ['%', '2', 'e', '%', '2', 'e'] => some 2
  | _ => none

/-- A letter with a colon or a bar; `..` does not leave it. -/
def isDrive (segment : List Char) : Bool :=
  match segment with
  | [c, d] => c.isAlpha && (d == ':' || d == '|')
  | _ => false

/-- Drops the last segment of a reversed path. -/
def leave : List (List Char) → List (List Char)
  | [] => []
  | segment :: rest => if isDrive segment then segment :: rest else rest

/-- Adds segments to a reversed path; dots at the end leave an empty segment. -/
def resolve (path : List (List Char)) : List (List Char) → List (List Char)
  | [] => path.reverse
  | segment :: rest =>
    let isLast := rest.isEmpty
    match dots segment with
    | some 1 => resolve (if isLast then [] :: path else path) rest
    | some _ => resolve (if isLast then [] :: leave path else leave path) rest
    | none => resolve (percentEncode pathSet segment :: path) rest

def readPath (special : Bool) (s : List Char) : Path :=
  match s with
  | [] => .segments (if special then [[]] else [])
  | c :: rest =>
    .segments (resolve [] (splitSegments special (if isSlash special c then rest else c :: rest)))

/-- A text up to the query or fragment, and what they are. -/
structure Tail where
  before : List Char
  query : Option (List Char)
  fragment : Option (List Char)

def splitTail (special : Bool) (s : List Char) : Tail :=
  let beforeFragment := s.takeWhile (· != '#')
  let fragment :=
    match s.dropWhile (· != '#') with
    | _ :: fragment => some (percentEncode fragmentSet fragment)
    | [] => none
  let query :=
    match beforeFragment.dropWhile (· != '?') with
    | _ :: query => some (percentEncode (if special then specialQuerySet else querySet) query)
    | [] => none
  ⟨beforeFragment.takeWhile (· != '?'), query, fragment⟩

/-! ### Authorities -/

/-- The part before the last `@`, if there is one, and the part after it. -/
def splitUserinfo (authority : List Char) : Option (List Char) × List Char :=
  if authority.contains '@' then
    let host := (authority.reverse.takeWhile (· != '@')).reverse
    (some (authority.take (authority.length - host.length)).dropLast, host)
  else (none, authority)

/-- Splits at the colon of a port; colons in brackets are none. -/
def splitPort (inBrackets : Bool) : List Char → List Char × Option (List Char)
  | [] => ([], none)
  | c :: s =>
    if c == ':' && !inBrackets then ([], some s)
    else
      let (host, port) := splitPort (c == '[' || (inBrackets && c != ']')) s
      (c :: host, port)

/-- The value of a port, if it has digits and none of them takes it out of range. -/
def readPort (scheme : String) (s : List Char) : Except ParseError (Option Nat) :=
  let digits := s.takeWhile Char.isDigit
  let value := digits.foldl (fun n c ↦ 10 * n + (c.toNat - '0'.toNat)) 0
  match s.dropWhile Char.isDigit with
  | _ :: _ => .error .invalidPort
  | [] =>
    if 0xFFFF < value then .error .invalidPort
    else if digits.isEmpty then .ok none
    else .ok (givenPort scheme value)

variable [Idna]

/-- Reads what follows the slashes before a host. -/
def readAuthority (scheme : String) (s : List Char) : Except ParseError Url := do
  let special := isSpecialScheme scheme
  let authority := s.takeWhile (!endsAuthority special ·)
  let rest := s.dropWhile (!endsAuthority special ·)
  let (userinfo, hostAndPort) := splitUserinfo authority
  if userinfo == some [] && hostAndPort.isEmpty && !rest.isEmpty then
    throw (.host .emptyHost)
  let username := (userinfo.getD []).takeWhile (· != ':')
  let password := ((userinfo.getD []).dropWhile (· != ':')).drop 1
  let (hostText, portText) := splitPort false hostAndPort
  let host ← ((if special then Host.parse else Host.parseUnknown) hostText).mapError .host
  if hostText.isEmpty && (portText.isSome || !username.isEmpty || !password.isEmpty) then
    throw (.host .emptyHost)
  let port ← (portText.elim (.ok none) (readPort scheme) : Except ParseError (Option Nat))
  let tail := splitTail special rest
  return {
    scheme := scheme
    username := percentEncode userinfoSet username
    password := percentEncode userinfoSet password
    host := some host
    port := port
    path := readPath special tail.before
    query := tail.query
    fragment := tail.fragment }

/-- Reads what follows `file:`; a host is optional and has neither user nor port. -/
def readFile (s : List Char) : Except ParseError Url := do
  let slashes := s.takeWhile (isSlash true)
  let hostText :=
    if slashes.length = 2 then (s.drop 2).takeWhile (!endsAuthority true ·) else []
  let isHost := !hostText.isEmpty && !isDrive hostText
  let host ←
    if isHost then
      match Host.parse hostText with
      | .ok (.domain name) => pure (if name == "localhost".toList then none else some (.domain name))
      | .ok host => pure (some host)
      | .error e => throw (.host e)
    else pure none
  let rest := if isHost then s.drop (2 + hostText.length) else s.drop (min slashes.length 2)
  let tail := splitTail true rest
  return {
    scheme := "file"
    host := host
    path := readPath true tail.before
    query := tail.query
    fragment := tail.fragment }

/-- Reads what follows the colon of a scheme. -/
def readScheme (scheme : String) (s : List Char) : Except ParseError Url :=
  if scheme == "file" then readFile s
  else if isSpecialScheme scheme then readAuthority scheme (s.dropWhile (isSlash true))
  else
    match s with
    | '/' :: '/' :: rest => readAuthority scheme rest
    | s =>
      let tail := splitTail false s
      .ok {
        scheme := scheme
        path :=
          if tail.before.head? == some '/' then readPath false tail.before
          else .plain (percentEncode controlSet tail.before)
        query := tail.query
        fragment := tail.fragment }

def isSchemeChar (c : Char) : Bool :=
  c.isAlphanum || c == '+' || c == '-' || c == '.'

def parse (text : String) : Except ParseError Url :=
  let s := significant text.toList
  let scheme := s.takeWhile isSchemeChar
  match scheme.head?, s.dropWhile isSchemeChar with
  | some c, ':' :: rest =>
    if c.isAlpha then readScheme (String.ofList (scheme.map Char.toLower)) rest
    else .error .noScheme
  | _, _ => .error .noScheme

end AgentReply.Url
