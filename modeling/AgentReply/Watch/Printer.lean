import AgentReply.Json.Writer
import AgentReply.Reply.Render
import AgentReply.Reply.Turn

/-!
# Printing turns

As JSON, every change of a turn is printed as a record. As text, each turn is printed once: when it is
complete, or when the session ends within it.
-/

namespace AgentReply

/-- What is printed of a turn. -/
inductive Shown where
  | record (turn : Turn)
  /-- The reply of a turn as a block of lines. -/
  | reply (lines : String)
deriving DecidableEq, Repr

def Turn.toJson (name : String) (t : Turn) : Json :=
  .object [("turn_id", .string name), ("parsed", t.reply.toJson), ("raw", .string t.raw),
    ("complete", .bool t.complete)]

/-- The text that is printed, with an empty line after a reply. Turns that the backend gave no id are
named by `nameOf`. -/
def Shown.text (nameOf : Nat → String) : Shown → String
  | .record turn =>
    let name :=
      match turn.id with
      | .sent id => id
      | .made number => nameOf number
    (turn.toJson name).compact ++ "\n"
  | .reply lines => lines ++ "\n"

structure Printer where
  asJson : Bool := false
  /-- The turn that was printed last as text. -/
  printed : Option TurnId := none
deriving DecidableEq, Repr

namespace Printer

/-- Prints a turn as text, unless it is the one that was printed last. An empty reply is not shown. -/
def printTurn (p : Printer) (t : Turn) : Option Shown × Printer :=
  if p.printed = some t.id then (none, p)
  else
    let lines := t.reply.render
    (if lines.isEmpty then none else some (.reply lines), { p with printed := some t.id })

def update (p : Printer) (t : Turn) : Option Shown × Printer :=
  if p.asJson then (some (.record t), p)
  else if t.complete then p.printTurn t
  else (none, p)

def finish (p : Printer) (t : Turn) : Option Shown × Printer :=
  if p.asJson || t.raw.isEmpty then (none, p) else p.printTurn t

end Printer
end AgentReply
