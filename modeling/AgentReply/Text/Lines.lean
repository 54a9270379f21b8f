/-!
# Lines of a text

A line ends at LF or CRLF. What follows the last line end is a line too, unless it is empty.
-/

namespace AgentReply.Text

/-- A line without a CR at its end. -/
def dropReturn (line : List Char) : List Char :=
  match line.reverse with
  | '\r' :: rest => rest.reverse
  | _ => line

/-- The lines of a text, of which the first begins with `line` in reverse. -/
def linesFrom (line : List Char) : List Char → List (List Char)
  | [] => if line.isEmpty then [] else [line.reverse]
  | '\n' :: s => dropReturn line.reverse :: linesFrom [] s
  | c :: s => linesFrom (c :: line) s

def lines (s : String) : List String :=
  (linesFrom [] s.toList).map String.ofList

end AgentReply.Text
