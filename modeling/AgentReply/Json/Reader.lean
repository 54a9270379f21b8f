import AgentReply.Json.Scan

/-!
# Reading JSON

A text is read in one pass, with at most `maxDepth` lists and objects inside each other. The lists and
objects are read by `items` and `members`, which are given the reader of what stands in them.
-/

namespace AgentReply.Json

open Text (Rest Tail)

def maxDepth : Nat := 127

/-- Reads the items of a list up to its `]`, after one item. -/
def moreItems {α : Type} (item : Reader α) (s : List Char) : Except Fault (List α × Rest s) :=
  match h : skipBlank s with
  | ']' :: _ => .ok ([], pastBlank h)
  | ',' :: rest =>
    match skipBlank rest with
    | [] => .error ⟨.endInValue, [], 0⟩
    | ']' :: rest' => .error ⟨.trailingComma, ']' :: rest', 1⟩
    | _ => do
      let (x, next) ← item rest
      let next := (pastBlank h).andRest next
      let (xs, last) ← moreItems item next.1
      .ok (x :: xs, next.andRest last)
  | rest => .error (faultAt .expectedCommaOrBracket .endInList rest)
termination_by s.length
decreasing_by exact next.2

def items {α : Type} (item : Reader α) (s : List Char) : Except Fault (List α × Rest s) :=
  match h : skipBlank s with
  | [] => .error ⟨.endInList, [], 0⟩
  | ']' :: _ => .ok ([], pastBlank h)
  | _ => do
    let (x, next) ← item s
    let (xs, last) ← moreItems item next.1
    .ok (x :: xs, next.andRest last)

/-- What is done with a member of an object once its key is read: the reader begins before the colon. -/
abbrev MemberReader (σ : Type) := σ → String → Reader σ

/-- Reads a key after its opening quote, and its member. -/
def keyed {σ : Type} (member : MemberReader σ) (state : σ) : Reader σ := fun s ↦ do
  let (key, next) ← stringBody s
  let (state, last) ← member state (String.ofList key) next.1
  .ok (state, next.andRest last)

/-- Reads the members of an object up to its `}`, after one member. -/
def moreMembers {σ : Type} (member : MemberReader σ) (state : σ) (s : List Char) :
    Except Fault (σ × Rest s) :=
  match h : skipBlank s with
  | '\x7d' :: _ => .ok (state, pastBlank h)
  | ',' :: rest =>
    match h' : skipBlank rest with
    | '"' :: key => do
      let (state, next) ← keyed member state key
      let next := ((pastBlank h).andRest (pastBlank h')).andRest next
      let (state, last) ← moreMembers member state next.1
      .ok (state, next.andRest last)
    | '\x7d' :: rest' => .error ⟨.trailingComma, '\x7d' :: rest', 1⟩
    | rest' => .error (faultAt .keyNotString .endInValue rest')
  | rest => .error (faultAt .expectedCommaOrBrace .endInObject rest)
termination_by s.length
decreasing_by exact next.2

def members {σ : Type} (member : MemberReader σ) (state : σ) (s : List Char) :
    Except Fault (σ × Rest s) :=
  match h : skipBlank s with
  | '\x7d' :: _ => .ok (state, pastBlank h)
  | '"' :: key => do
    let (state, next) ← keyed member state key
    let (state, last) ← moreMembers member state next.1
    .ok (state, ((pastBlank h).andRest next).andRest last)
  | rest => .error (faultAt .keyNotString .endInObject rest)

def colon (s : List Char) : Except Fault (Rest s) :=
  match h : skipBlank s with
  | ':' :: _ => .ok (pastBlank h)
  | rest => .error (faultAt .expectedColon .endInObject rest)

/-- Reads the first characters of a word and the characters that must follow. -/
def wordValue (value : Json) (rest s : List Char) : Except Fault (Json × Tail s) :=
  (word rest s).map fun tail ↦ (value, tail)

/-- Reads a value that is neither list nor object. -/
def scalar : Reader Json := fun s ↦
  match h : skipBlank s with
  | [] => .error ⟨.endInValue, [], 0⟩
  | c :: rest =>
    let start := pastBlank h
    match c with
    | 'n' => (word "ull".toList rest).map fun last ↦ (.null, start.andTail last)
    | 't' => (word "rue".toList rest).map fun last ↦ (.bool true, start.andTail last)
    | 'f' => (word "alse".toList rest).map fun last ↦ (.bool false, start.andTail last)
    | '-' => (unsignedNumber true rest).map fun (n, last) ↦ (.number n, start.andRest last)
    | '"' =>
      (stringBody rest).map fun (cs, last) ↦ (.string (String.ofList cs), start.andRest last)
    | c =>
      if c.isDigit then
        let blanks := Tail.dropWhile isBlank s
        (unsignedNumber false blanks.1).map fun (n, last) ↦ (.number n, blanks.andRest last)
      else .error ⟨.expectedValue, c :: rest, 1⟩

/-- Reads a member with its value and adds it to the fields before it. -/
def collect (value : Reader Json) : MemberReader (List (String × Json)) := fun fields key s ↦ do
  let next ← colon s
  let (x, last) ← value next.1
  .ok (fields ++ [(key, x)], next.andRest last)

/-- Reads a value with at most `depth` lists and objects inside each other. -/
def value : (depth : Nat) → Reader Json
  | 0 => fun s ↦
    match skipBlank s with
    | '[' :: rest => .error ⟨.tooDeep, '[' :: rest, 1⟩
    | '\x7b' :: rest => .error ⟨.tooDeep, '\x7b' :: rest, 1⟩
    | _ => scalar s
  | depth + 1 => fun s ↦
    match h : skipBlank s with
    | '[' :: rest =>
      (items (value depth) rest).map fun (xs, last) ↦ (.array xs, (pastBlank h).andRest last)
    | '\x7b' :: rest =>
      (members (collect (value depth)) [] rest).map fun (fields, last) ↦
        (.object (sortFields fields), (pastBlank h).andRest last)
    | _ => scalar s

/-- The line and the octets of that line up to the end of some octets of a text. -/
def place (octets : List UInt8) : Nat × Nat :=
  octets.foldl
    (fun (line, column) (octet : UInt8) ↦
      if octet = 10 then (line + 1, 0) else (line, column + 1))
    (1, 0)

def Fault.locate (text : String) (fault : Fault) : Error :=
  let offset := text.utf8ByteSize - Text.octetCount fault.rest + fault.seen
  let (line, column) := place (text.toUTF8.toList.take offset)
  ⟨fault.cause, line, column⟩

def readWith {α : Type} (reader : Reader α) (text : String) : Except Error α :=
  match reader text.toList with
  | .error fault => .error (fault.locate text)
  | .ok (x, ⟨rest, _⟩) =>
    match skipBlank rest with
    | [] => .ok x
    | rest => .error (Fault.locate text ⟨.trailingCharacters, rest, 1⟩)

def read (text : String) : Except Error Json :=
  readWith (value maxDepth) text

/-- Reads an object as the list of its fields as they are written, repeated ones included. -/
def fieldList : Reader (List (String × Json)) := fun s ↦
  match h : skipBlank s with
  | '\x7b' :: rest =>
    (members (collect (value (maxDepth - 1))) [] rest).map fun (fields, last) ↦
      (fields, (pastBlank h).andRest last)
  | rest => .error (faultAt .expectedValue .endInValue rest)

end AgentReply.Json
