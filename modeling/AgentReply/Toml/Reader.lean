import AgentReply.Toml.Scan
import AgentReply.Toml.Table

/-!
# Reading TOML

A document is a list of lines, each of which adds to the tables. Arrays and inline tables may stand in
each other to a limited depth.
-/

namespace AgentReply.Toml

open Text (Rest Tail)

/-- The greatest number of arrays and inline tables around a value. -/
def maxDepth : Nat := 79

/-- Reads a key with fewer parts than a table can lie deep. -/
def path? (s : List Char) : Option (List String × Rest s) :=
  (key? s).filter fun (parts, _) ↦ parts.length ≤ maxDepth

/-- Reads the items of an array up to its `]`. -/
def items? (item : Scan Value) (s : List Char) : Option (List Value × Rest s) := do
  let blank ← skipLines s
  match mark? ']' blank.1 with
  | some last => some ([], blank.andRest last)
  | none =>
    let (value, next) ← item blank.1
    let blank' ← skipLines next.1
    let next := (blank.andRest next).andTail blank'
    match mark? ']' next.1 with
    | some last => some ([value], next.andRest last)
    | none =>
      let comma ← mark? ',' next.1
      let next := next.andRest comma
      let (values, last) ← items? item next.1
      some (value :: values, next.andRest last)
termination_by s.length
decreasing_by exact next.2

/-- Reads a key, an equals sign and a value: the path before the last part of the key, that part and the
value. -/
def pair? (item : Scan Value) (s : List Char) :
    Option ((List String × String × Value) × Rest s) := do
  let (parts, next) ← path? s
  let next := next.andTail (.dropWhile isSpace next.1)
  let equals ← mark? '=' next.1
  let next := (next.andRest equals).andTail (.dropWhile isSpace equals.1)
  let (value, last) ← item next.1
  let key ← parts.getLast?
  some ((parts.dropLast, key, value), next.andRest last)

/-- Reads the pairs of an inline table up to its `}`, after one pair. -/
def morePairs? (item : Scan Value) (s : List Char) :
    Option (List (List String × String × Value) × Rest s) := do
  let spaces := Tail.dropWhile isSpace s
  match mark? '\x7d' spaces.1 with
  | some last => some ([], spaces.andRest last)
  | none =>
    let comma ← mark? ',' spaces.1
    let spaces' := Tail.dropWhile isSpace comma.1
    let (pair, next) ← pair? item spaces'.1
    let next := (spaces.andRest comma).andRest (spaces'.andRest next)
    let (pairs, last) ← morePairs? item next.1
    some (pair :: pairs, next.andRest last)
termination_by s.length
decreasing_by exact next.2

/-- Reads an inline table after its `{`. -/
def inlineTable? (item : Scan Value) (s : List Char) : Option (Value × Rest s) := do
  let spaces := Tail.dropWhile isSpace s
  match mark? '\x7d' spaces.1 with
  | some last => some (.table [], spaces.andRest last)
  | none =>
    let (pair, next) ← pair? item spaces.1
    let (pairs, last) ← morePairs? item next.1
    let value ← Draft.inline? (pair :: pairs)
    some (value, spaces.andRest (next.andRest last))

/-- Reads a value that is neither array nor table. -/
def scalar? (s : List Char) : Option (Value × Rest s) :=
  match s with
  | '"' :: rest => (string? ('"' :: rest)).map fun (text, rest') ↦ (.string text, rest')
  | '\'' :: rest => (string? ('\'' :: rest)).map fun (text, rest') ↦ (.string text, rest')
  | s => word? s

/-- Reads a value whose items are read by `item`. -/
def valueWith (item : Scan Value) (s : List Char) : Option (Value × Rest s) :=
  match s with
  | '[' :: rest =>
    (items? item rest).map fun (values, last) ↦ (.array values, last.behind '[')
  | '\x7b' :: rest =>
    (inlineTable? item rest).map fun (value, last) ↦ (value, last.behind '\x7b')
  | s => scalar? s

/-- Reads a value with at most `depth` arrays and inline tables inside each other. -/
def value? : (depth : Nat) → Scan Value
  | 0 => scalar?
  | depth + 1 => valueWith (value? depth)

/-- The tables so far, with the path of the header that the next pairs belong to. -/
structure Progress where
  fields : Draft.Fields := []
  header : List String := []

/-- Reads a header after its brackets: the path and its last part. -/
def header? (close : List Char) (s : List Char) : Option ((List String × String) × List Char) := do
  let (parts, ⟨rest, _⟩) ← path? (skipSpace s)
  let tail := skipSpace rest
  let last ← parts.getLast?
  if close.isPrefixOf tail then some ((parts.dropLast, last), tail.drop close.length) else none

/-- Reads the header or pair at the head of a line; gives what is left of the line. -/
def statement? (p : Progress) (s : List Char) : Option (Progress × List Char) :=
  let top : Origin := ⟨false, false⟩
  match s with
  | '[' :: '[' :: rest => do
    let ((path, key), tail) ← header? [']', ']'] rest
    let fields ← Draft.change false (Draft.push key) top p.fields path
    some (⟨fields, path ++ [key]⟩, tail)
  | '[' :: rest => do
    let ((path, key), tail) ← header? [']'] rest
    let fields ← Draft.change false (Draft.define key) top p.fields path
    some (⟨fields, path ++ [key]⟩, tail)
  | s => do
    let ((path, key, value), ⟨tail, _⟩) ← pair? (value? maxDepth) s
    let fields ← Draft.change false (Draft.addValue path key value) top p.fields p.header
    some ({ p with fields := fields }, tail)

/-- Reads a line, which may be empty or hold a comment alone. -/
def line? (p : Progress) (s : List Char) : Option (Progress × List Char) := do
  match skipSpace s with
  | [] => some (p, [])
  | '#' :: rest => (endOfLine? ('#' :: rest)).map (p, ·)
  | '\n' :: rest => some (p, rest)
  | '\r' :: rest => (endOfLine? ('\r' :: rest)).map (p, ·)
  | tail =>
    let (p, rest) ← statement? p tail
    (endOfLine? rest).map (p, ·)

/-- Reads lines as long as there are any. -/
def lines? (p : Progress) (s : List Char) : Option Progress :=
  if s.isEmpty then some p
  else
    match line? p s with
    | none => none
    | some (p, rest) => if rest.length < s.length then lines? p rest else none
termination_by s.length

def read (text : String) : Option Table :=
  let s :=
    match text.toList with
    | '\uFEFF' :: rest => rest
    | s => s
  (lines? {} s).map fun p ↦ Draft.toTable p.fields

end AgentReply.Toml
