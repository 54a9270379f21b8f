import AgentReply.Envelope.Reader

/-!
# Messages

What an envelope means to a session: a piece of the turn's text, the end of the turn, an error of the
backend, or anything else.
-/

namespace AgentReply

inductive Message where
  | delta (turn : Option String) (text : String)
  /-- The end of a turn, perhaps with a last piece of text, which is never empty. -/
  | complete (turn : Option String) (text : Option String)
  | remoteError (envelope : Envelope)
  | control (envelope : Envelope)
deriving DecidableEq, Repr

namespace Message

/-- The types of envelopes that carry text, where no others are chosen. -/
def standardDeltaTypes : List String := ["generate", "delta", "generate_response", "chat_reply"]

/-- An error comes first, then the end of a turn, then text. -/
def ofEnvelope (deltaTypes : List String) (e : Envelope) : Message :=
  if e.kind = "error" then .remoteError e
  else if e.complete = some true then
    .complete e.turnId? (e.contentText?.filter fun text ↦ !text.isEmpty)
  else
    match deltaTypes.contains e.kind, e.contentText? with
    | true, some text => .delta e.turnId? text
    | _, _ => .control e

structure DecodeError where
  source : Json.Error
deriving DecidableEq, Repr

def DecodeError.message (e : DecodeError) : String :=
  s!"invalid envelope: {e.source.message}"

def decode (deltaTypes : List String) (frame : String) : Except DecodeError Message :=
  match Envelope.read frame with
  | .ok e => .ok (ofEnvelope deltaTypes e)
  | .error e => .error ⟨e⟩

end Message
end AgentReply
