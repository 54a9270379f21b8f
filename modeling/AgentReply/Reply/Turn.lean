import AgentReply.Reply.Basic
import AgentReply.Text.Chunks

/-!
# Turns

A turn gathers the text of one reply while it arrives. The whole text is read again with each piece, so
the result does not depend on where the pieces were cut.
-/

namespace AgentReply

/-- The id of a turn: the one that the backend sent, or the number of one made here. -/
inductive TurnId where
  | sent (id : String)
  | made (number : Nat)
deriving DecidableEq, Repr

structure Turn where
  id : TurnId
  raw : String := ""
  reply : Reply := {}
  /-- Set by a completion signal alone. -/
  complete : Bool := false
deriving DecidableEq, Repr

namespace Turn

def append (v : Vocabulary) (t : Turn) (text : String) : Turn :=
  if text.isEmpty then t
  else { t with raw := t.raw ++ text, reply := Reply.parse v (t.raw ++ text) }

def markComplete (t : Turn) : Turn := { t with complete := true }

@[simp] theorem id_append (v : Vocabulary) (t : Turn) (text : String) :
    (t.append v text).id = t.id := by
  unfold append; split <;> rfl

@[simp] theorem complete_append (v : Vocabulary) (t : Turn) (text : String) :
    (t.append v text).complete = t.complete := by
  unfold append; split <;> rfl

@[simp] theorem raw_append (v : Vocabulary) (t : Turn) (text : String) :
    (t.append v text).raw = t.raw ++ text := by
  unfold append
  split
  · next h => simp [String.isEmpty_iff.1 h]
  · rfl

end Turn

/-- The current turn, with the number of ids made so far. -/
structure Assembly where
  turn : Turn := ⟨.made 1, "", {}, false⟩
  made : Nat := 1
deriving DecidableEq, Repr

namespace Assembly

def begin (a : Assembly) : Option String → Assembly
  | some id => { a with turn := ⟨.sent id, "", {}, false⟩ }
  | none => ⟨⟨.made (a.made + 1), "", {}, false⟩, a.made + 1⟩

def append (v : Vocabulary) (a : Assembly) (text : String) : Assembly :=
  { a with turn := a.turn.append v text }

def markComplete (a : Assembly) : Assembly :=
  { a with turn := a.turn.markComplete }

/-- The complete turn of a text that arrives whole, or in pieces of a size. -/
def ofText (v : Vocabulary) (text : String) (size : Option Nat) : Assembly :=
  let pieces := size.elim [text] (Text.chunks text)
  (pieces.foldl (append v) (({} : Assembly).begin none)).markComplete

end Assembly
end AgentReply
