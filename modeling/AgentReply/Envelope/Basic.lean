import AgentReply.Json.Writer

/-!
# Envelopes

Every frame from the backend is an envelope: an object with a type, a content and a few fields that mean
something here. The other fields are carried along.
-/

namespace AgentReply

structure Envelope where
  kind : String
  content : Json := .null
  action : Option String := none
  complete : Option Bool := none
  id : Option Json := none
  /-- The fields that mean nothing here, in increasing order of the keys. -/
  extra : List (String × Json) := []
deriving DecidableEq, Repr

namespace Envelope

/-- The id of the turn that an envelope belongs to: a string that is not empty, or the text of a
number. -/
def turnId? (e : Envelope) : Option String :=
  match e.id with
  | some (.string id) => if id.isEmpty then none else some id
  | some (.number id) => some id.text
  | _ => none

def contentText? (e : Envelope) : Option String := e.content.string?

/-- The fields of an envelope: type and content always, the others as far as they are there. -/
def toJson (e : Envelope) : Json :=
  .object ([("type", .string e.kind), ("content", e.content)] ++
    (e.action.map fun action ↦ ("action", .string action)).toList ++
    (e.complete.map fun complete ↦ ("complete", .bool complete)).toList ++
    (e.id.map fun id ↦ ("id", id)).toList ++ e.extra)

end Envelope
end AgentReply
