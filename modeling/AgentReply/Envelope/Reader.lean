import AgentReply.Envelope.Basic
import AgentReply.Json.Reader

/-!
# Reading envelopes

An envelope is read in one pass over its frame, so the first thing that is wrong with the frame decides
the error, be it syntax or data. A field that means something may stand only once; `data` is another name
for `content`.
-/

namespace AgentReply.Envelope

open Json (Reader Fault DataError)
open Text (Rest)

/-- The fault of a value of another kind than expected. A list or object is not read any further. -/
def mismatch {α : Type} (expected : String) : Reader α := fun s ↦
  match Json.skipBlank s with
  | '[' :: rest => .error ⟨.data (.wrongType .sequence expected), '[' :: rest, 0⟩
  | '\x7b' :: rest => .error ⟨.data (.wrongType .map expected), '\x7b' :: rest, 0⟩
  | _ =>
    match Json.scalar s with
    | .ok (value, rest) => .error ⟨.data (.wrongType value.found expected), rest.1, 0⟩
    | .error fault => .error fault

def stringReader : Reader String := fun s ↦
  match h : Json.skipBlank s with
  | '"' :: rest =>
    (Json.stringBody rest).map fun (cs, last) ↦
      (String.ofList cs, (Json.pastBlank h).andRest last)
  | _ => mismatch "a string" s

def boolReader : Reader Bool := fun s ↦
  match Json.scalar s with
  | .ok (.bool value, rest) => .ok (value, rest)
  | _ => mismatch "a boolean" s

def nullable {α : Type} (reader : Reader α) : Reader (Option α) := fun s ↦
  match h : Json.skipBlank s with
  | 'n' :: rest =>
    (Json.word "ull".toList rest).map fun last ↦ (none, (Json.pastBlank h).andTail last)
  | _ => (reader s).map fun (value, rest) ↦ (some value, rest)

/-- The fields read so far; the outer option tells whether a field was there. -/
structure Draft where
  kind : Option String := none
  content : Option Json := none
  action : Option (Option String) := none
  complete : Option (Option Bool) := none
  id : Option (Option Json) := none
  extra : List (String × Json) := []

/-- The fault of a second field of a name. The blanks after its key, and an end of the object there, are
passed over first. -/
def duplicate {α : Type} (name : String) (s : List Char) : Except Fault α :=
  let rest :=
    match Json.skipBlank s with
    | '\x7d' :: rest => rest
    | rest => rest
  .error ⟨.data (.duplicateField name), rest, 0⟩

/-- Reads the value of a field that has not been there before. -/
def fresh {α : Type} (name : String) (soFar : Option α) (reader : Reader α)
    (store : α → Draft) : Reader Draft := fun s ↦
  match soFar with
  | some _ => duplicate name s
  | none => do
    let next ← Json.colon s
    let (value, last) ← reader next.1
    .ok (store value, next.andRest last)

/-- The reader of a field's value: the object around it counts as one level. -/
def valueReader : Reader Json := Json.value (Json.maxDepth - 1)

def member : Json.MemberReader Draft := fun d key ↦
  match key with
  | "type" => fresh "type" d.kind stringReader fun x ↦ { d with kind := some x }
  | "content" | "data" =>
    fresh "content" d.content valueReader fun x ↦ { d with content := some x }
  | "action" => fresh "action" d.action (nullable stringReader) fun x ↦ { d with action := some x }
  | "complete" =>
    fresh "complete" d.complete (nullable boolReader) fun x ↦ { d with complete := some x }
  | "id" => fresh "id" d.id (nullable valueReader) fun x ↦ { d with id := some x }
  | _ =>
    fresh key (none : Option Json) valueReader fun x ↦
      { d with extra := Json.insertField key x d.extra }

def Draft.toEnvelope (d : Draft) (kind : String) : Envelope where
  kind := kind
  content := d.content.getD .null
  action := d.action.join
  complete := d.complete.join
  id := d.id.join
  extra := d.extra

def reader : Reader Envelope := fun s ↦
  match h : Json.skipBlank s with
  | '\x7b' :: rest =>
    match Json.members member {} rest with
    | .error fault => .error fault
    | .ok (d, last) =>
      match d.kind with
      | some kind => .ok (d.toEnvelope kind, (Json.pastBlank h).andRest last)
      | none => .error ⟨.data (.missingField "type"), last.1, 0⟩
  | _ => mismatch "struct Envelope" s

def read (frame : String) : Except Json.Error Envelope :=
  Json.readWith reader frame

end AgentReply.Envelope
