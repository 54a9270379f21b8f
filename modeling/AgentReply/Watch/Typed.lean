import AgentReply.Text.Utf8

/-!
# Typed lines

What a user types arrives in pieces and is taken line by line, without the line break. A line that is not
UTF-8 ends the reading, and the end of the input ends the last line, if there is one.
-/

namespace AgentReply

/-- A reader of typed lines: the octets of a line that is not at its end, or nothing more to read. -/
inductive Typed where
  | reading (held : List UInt8)
  | closed
deriving DecidableEq, Repr

namespace Typed

/-- A line without its line break, which may be preceded by a carriage return. -/
def withoutBreak (line : List UInt8) : List UInt8 :=
  match line.reverse with
  | 13 :: rest => rest.reverse
  | _ => line

/-- Takes more octets behind those of a line that is not at its end. -/
def readLines (held : List UInt8) : List UInt8 → List String × Typed
  | [] => ([], .reading held)
  | 10 :: rest =>
    match Utf8.decode? (withoutBreak held) with
    | none => ([], .closed)
    | some line =>
      let (lines, reader) := readLines [] rest
      (line :: lines, reader)
  | octet :: rest => readLines (held ++ [octet]) rest

def feed (octets : List UInt8) : Typed → List String × Typed
  | .reading held => readLines held octets
  | .closed => ([], .closed)

def finish : Typed → List String × Typed
  | .reading (octet :: held) => ((Utf8.decode? (octet :: held)).toList, .closed)
  | _ => ([], .closed)

end Typed
end AgentReply
