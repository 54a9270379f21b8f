import AgentReply.Text.Charset

/-!
# Heads of responses

A response begins with a status line and header fields, up to an empty line. What has arrived of it may
not be all of it yet; then the head is incomplete, unless something is wrong with it already.
-/

namespace AgentReply.Http

inductive HeadError where
  | version
  | status
  | newLine
  | fieldName
  | fieldValue
  | tooManyFields
deriving DecidableEq, Repr

def HeadError.message : HeadError → String
  | .version => "invalid HTTP version"
  | .status => "invalid response status"
  | .newLine => "invalid new line"
  | .fieldName => "invalid header name"
  | .fieldValue => "invalid header value"
  | .tooManyFields => "too many headers"

/-- Reads a value at the head of what has arrived; `none` if more has to arrive. -/
abbrev Partial (α : Type) := Except HeadError (Option (α × List UInt8))

structure Field where
  /-- The name in lower case. -/
  name : String
  value : List UInt8
deriving DecidableEq, Repr

structure Head where
  /-- The number after the point of the version. -/
  minorVersion : Nat
  status : Nat
  fields : List Field
deriving DecidableEq, Repr

def octetsOf (text : String) : List UInt8 := Utf8.encode text.toList

/-- The text of octets that stand for one character each. -/
def textOf (octets : List UInt8) : String :=
  String.ofList (octets.map fun b ↦ Char.ofNat b.toNat)

/-! ### Status line -/

def skipEmptyLines : List UInt8 → Partial Unit
  | [] => .ok none
  | 10 :: s => skipEmptyLines s
  | [13] => .ok none
  | 13 :: 10 :: s => skipEmptyLines s
  | 13 :: _ => .error .newLine
  | s => .ok (some ((), s))

def versionOctets : List UInt8 := octetsOf "HTTP/1."

def version (s : List UInt8) : Partial Nat :=
  if versionOctets.isPrefixOf s then
    match s.drop versionOctets.length with
    | [] => .ok none
    | digit :: rest =>
      if digit != 48 && digit != 49 then .error .version
      else
        match rest with
        | [] => .ok none
        | 32 :: rest => .ok (some (digit.toNat - 48, rest))
        | _ => .error .version
  else if s.isPrefixOf versionOctets then .ok none
  else .error .version

def isDigit (b : UInt8) : Bool := 48 ≤ b && b ≤ 57

def statusCode (s : List UInt8) : Partial Nat :=
  if !(s.take 3).all isDigit then .error .status
  else
    match s with
    | a :: b :: c :: rest =>
      .ok (some (100 * (a.toNat - 48) + 10 * (b.toNat - 48) + (c.toNat - 48), rest))
    | _ => .ok none

/-- Whether an octet may stand in a reason or in the value of a field. -/
def isText (b : UInt8) : Bool := b == 9 || (32 ≤ b && b != 127)

def restOfLine (error : HeadError) : List UInt8 → Partial (List UInt8)
  | [] => .ok none
  | 10 :: s => .ok (some ([], s))
  | [13] => .ok none
  | 13 :: 10 :: s => .ok (some ([], s))
  | 13 :: _ => .error error
  | b :: s =>
    if isText b then
      (restOfLine error s).map fun line? ↦ line?.map fun (line, rest) ↦ (b :: line, rest)
    else .error error

def reasonLine : List UInt8 → Partial (List UInt8)
  | [] => .ok none
  | 32 :: s => restOfLine .status s
  | 10 :: s => .ok (some ([], s))
  | 13 :: s => restOfLine .status (13 :: s)
  | _ => .error .status

/-! ### Fields -/

def isNameOctet (b : UInt8) : Bool :=
  let c := Char.ofNat b.toNat
  c.isAlphanum || "!#$%&'*+-.^_|~".toList.contains c || b == 96

def isSpaceOctet (b : UInt8) : Bool := b == 32 || b == 9

/-- Reads a field. Spaces around its value do not count. -/
def field (s : List UInt8) : Partial Field :=
  let name := s.takeWhile isNameOctet
  match s.dropWhile isNameOctet with
  | [] => .ok none
  | 58 :: rest =>
    if name.isEmpty then .error .fieldName
    else
      (restOfLine .fieldValue (rest.dropWhile isSpaceOctet)).map fun line? ↦
        line?.map fun (line, rest) ↦
          (⟨Text.lowered (textOf name), (line.reverse.dropWhile isSpaceOctet).reverse⟩, rest)
  | _ => .error .fieldName

def fieldLines (limit : Nat) (s : List UInt8) : Partial (List Field) :=
  match s with
  | [] => .ok none
  | 10 :: rest => .ok (some ([], rest))
  | [13] => .ok none
  | 13 :: 10 :: rest => .ok (some ([], rest))
  | 13 :: _ => .error .newLine
  | s =>
    match limit with
    | 0 => .error .tooManyFields
    | limit + 1 =>
      match field s with
      | .error e => .error e
      | .ok none => .ok none
      | .ok (some (first, rest)) =>
        (fieldLines limit rest).map fun more? ↦ more?.map fun (more, rest) ↦ (first :: more, rest)

/-! ### Heads -/

/-- Runs a reader on what another one has left. -/
def Partial.andThen {α β : Type} (p : Partial α) (next : α → List UInt8 → Partial β) : Partial β :=
  match p with
  | .error e => .error e
  | .ok none => .ok none
  | .ok (some (value, rest)) => next value rest

def Head.read (limit : Nat) (s : List UInt8) : Partial Head :=
  (skipEmptyLines s).andThen fun () s ↦
  (version s).andThen fun minorVersion s ↦
  (statusCode s).andThen fun status s ↦
  (reasonLine s).andThen fun _ s ↦
  (fieldLines limit s).map fun fields? ↦ fields?.map fun (fields, rest) ↦
    (⟨minorVersion, status, fields⟩, rest)

namespace Head

def getAll (h : Head) (name : String) : List (List UInt8) :=
  (h.fields.filter (·.name == name)).map Field.value

def get? (h : Head) (name : String) : Option (List UInt8) :=
  (h.getAll name).head?

/-- The value of the first field of a name, if it is made of visible characters. -/
def getText? (h : Head) (name : String) : Option String :=
  ((h.get? name).filter fun value ↦ value.all fun b ↦ isText b && b < 127).map textOf

/-- The value of a parameter such as `charset=utf-8`, if it has this name. -/
def parameter? (name : String) (text : String) : Option String :=
  match text.splitOn "=" with
  | [given, value] =>
    if Text.lowered (Text.trimmed given) == name then
      some (String.ofList ((Text.trim value.toList).filter (· != '"')))
    else none
  | _ => none

/-- The charset that the type of the content names; UTF-8 if it names none that is known. -/
def charset (h : Head) : Charset :=
  let parameters := ((h.getText? "content-type").map (·.splitOn ";")).getD []
  ((parameters.tail.findSome? (parameter? "charset")).bind Charset.ofLabel?).getD .utf8

end Head
end AgentReply.Http
