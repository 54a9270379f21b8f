import AgentReply.Text.Rest
import AgentReply.Text.Utf8

/-!
# Event streams

An event stream is a text in UTF-8, read line by line. Lines with a field build an item, and an empty
line ends it. What arrives may be cut anywhere: octets that are no whole character yet and a line without
its end are kept until more arrives, so the items do not depend on the cuts.
-/

namespace AgentReply.EventStream

structure Item where
  kind : String
  data : String
deriving DecidableEq, Repr

/-! ### Lines -/

inductive Line where
  | blank
  | comment
  | field (name value : List Char)
deriving DecidableEq, Repr

/-- One space after the colon does not belong to the value. -/
def Line.ofChars (s : List Char) : Line :=
  match s with
  | [] => .blank
  | ':' :: _ => .comment
  | s =>
    let value :=
      match s.dropWhile (· != ':') with
      | ':' :: ' ' :: value => value
      | ':' :: value => value
      | _ => []
    .field (s.takeWhile (· != ':')) value

/-- Splits a text after its first line. A carriage return at the end of the text does not end a line yet,
because a line feed may follow. -/
def splitLine? : List Char → Option (List Char × List Char)
  | [] => none
  | '\n' :: rest => some ([], rest)
  | '\r' :: '\n' :: rest => some ([], rest)
  | ['\r'] => none
  | '\r' :: rest => some ([], rest)
  | c :: rest => (splitLine? rest).map fun (line, rest) ↦ (c :: line, rest)

theorem length_of_splitLine? {s line rest : List Char} (h : splitLine? s = some (line, rest)) :
    rest.length < s.length := by
  fun_induction splitLine? s generalizing line with
  | case1 => simp at h
  | case2 => simp_all
  | case3 =>
    simp only [Option.some.injEq, Prod.mk.injEq] at h
    simp only [List.length_cons, ← h.2]
    omega
  | case4 => simp at h
  | case5 => simp_all
  | case6 c s _ _ _ _ ih =>
    obtain ⟨⟨line', rest'⟩, hs, he⟩ := Option.map_eq_some_iff.1 h
    simp only [Prod.mk.injEq] at he
    have := ih (he.2 ▸ hs)
    simp only [List.length_cons]
    omega

/-- Splits a text into its finished lines and what is left. -/
def splitLines (s : List Char) : List (List Char) × List Char :=
  match _h : splitLine? s with
  | none => ([], s)
  | some (line, rest) =>
    let (lines, tail) := splitLines rest
    (line :: lines, tail)
termination_by s.length
decreasing_by exact length_of_splitLine? ‹_›

/-! ### Items -/

/-- An item that is not ended yet. Each line of its data is followed by a line feed. -/
structure Draft where
  kind : List Char := []
  data : List Char := []

/-- The item of a draft; without data there is none, and without a kind it is a message. -/
def Draft.item? (d : Draft) : Option Item :=
  if d.data.isEmpty then none
  else
    some {
      kind := if d.kind.isEmpty then "message" else String.ofList d.kind
      data := String.ofList d.data.dropLast }

/-- Adds a line. An empty one ends the item. -/
def Draft.add (d : Draft) : Line → Option Item × Draft
  | .blank => (d.item?, {})
  | .comment => (none, d)
  | .field name value =>
    if name = "data".toList then (none, { d with data := d.data ++ value ++ ['\n'] })
    else if name = "event".toList then (none, { d with kind := value })
    else (none, d)

def Draft.addAll (d : Draft) : List (List Char) → List Item × Draft
  | [] => ([], d)
  | line :: lines =>
    let (item, d) := d.add (.ofChars line)
    let (items, d) := d.addAll lines
    (item.toList ++ items, d)

/-! ### Pieces -/

/-- What has arrived of a stream and is not used yet. -/
structure Reader where
  /-- Whether any text of the stream has arrived. -/
  started : Bool := false
  octets : List UInt8 := []
  text : List Char := []
  draft : Draft := {}

namespace Reader

/-- Whether a text crashes a reader: one with a byte order mark does at the head of a stream. -/
def crashes (r : Reader) (chars : List Char) : Bool := !r.started && chars.head? == some '\uFEFF'

/-- Takes what has been decoded and gives the items that it ends. -/
def take (r : Reader) (decoded : Utf8.Decoded) : List Item × Reader :=
  let (lines, text) := splitLines (r.text ++ decoded.chars)
  let (items, draft) := r.draft.addAll lines
  (items, ⟨r.started || !decoded.chars.isEmpty, decoded.rest, text, draft⟩)

/-- Takes a piece of a stream and gives the items that it ends; `none` if that crashes the reader. -/
def feed? (r : Reader) (piece : List UInt8) : Option (List Item × Reader) :=
  let decoded := Utf8.decode (r.octets ++ piece)
  if r.crashes decoded.chars then none else some (r.take decoded)

end Reader

inductive Error where
  /-- The stream has ended within octets that are no UTF-8. -/
  | invalidOctets (stop : Utf8.Stop)
  | transport (reason : String)
deriving DecidableEq, Repr

def Error.message : Error → String
  | .invalidOctets (.invalid length) =>
    s!"UTF8 error: invalid utf-8 sequence of {length} bytes from index 0"
  | .invalidOctets _ => "UTF8 error: incomplete utf-8 byte sequence from index 0"
  | .transport reason => s!"Transport error: {reason}"

def Reader.endError? (r : Reader) : Option Error :=
  if r.octets.isEmpty then none
  else some (.invalidOctets (Utf8.decode r.octets).stop)

end AgentReply.EventStream
