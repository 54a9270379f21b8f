import AgentReply.Toml.Basic

/-!
# Written TOML

Sections with a blank line between them, arrays of more than one item over several lines, and strings in
the quotes that need the fewest escapes.
-/

namespace AgentReply.Toml

/-- An escape for each character that may not stand between double quotes. -/
def escapeChar (c : Char) : List Char :=
  match c with
  | '\x08' => ['\\', 'b']
  | '\t' => ['\\', 't']
  | '\n' => ['\\', 'n']
  | '\x0c' => ['\\', 'f']
  | '\r' => ['\\', 'r']
  | '"' => ['\\', '"']
  | '\\' => ['\\', '\\']
  | c =>
    if c.toNat < 0x20 || c.toNat == 0x7F then
      let digit (n : Nat) : Char := "0123456789ABCDEF".toList.getD n '0'
      ['\\', 'u', '0', '0', digit (c.toNat / 16), digit (c.toNat % 16)]
    else [c]

/-- The length of the longest run of apostrophes, of which `run` have just been seen. -/
def longestApostrophes (run : Nat) : List Char → Nat
  | [] => run
  | c :: s =>
    if c == '\'' then longestApostrophes (run + 1) s
    else max run (longestApostrophes 0 s)

/-- Whether a text is better written without escapes: it would need some, and can do without. -/
def isLiteral (s : List Char) : Bool :=
  s.any (fun c ↦ c == '"' || c == '\\') && s.all (fun c ↦ c == '\n' || !isControl c) &&
    longestApostrophes 0 s < 3

/-- A text with line breaks stands between triple quotes, after a line break. -/
def writeString (value : String) : String :=
  let s := value.toList
  let isLong := s.contains '\n'
  if isLiteral s then
    if isLong then String.ofList ("'''\n".toList ++ s ++ "'''".toList)
    else if s.contains '\'' then String.ofList ("'''".toList ++ s ++ "'''".toList)
    else String.ofList ('\'' :: s ++ ['\''])
  else if isLong then
    let escaped := s.flatMap fun c ↦ if c == '\n' then [c] else escapeChar c
    String.ofList ("\"\"\"\n".toList ++ escaped ++ "\"\"\"".toList)
  else String.ofList ('"' :: s.flatMap escapeChar ++ ['"'])

def writeKey (key : String) : String :=
  let s := key.toList
  if !s.isEmpty && s.all isBareChar then key
  else if s.any (fun c ↦ c == '"' || c == '\\') && s.all (fun c ↦ c != '\'' && !isControl c) then
    String.ofList ('\'' :: s ++ ['\''])
  else String.ofList ('"' :: s.flatMap escapeChar ++ ['"'])

mutual

def writeValue : Value → String
  | .string value => writeString value
  | .integer value => toString value
  | .float text => text
  | .boolean value => if value then "true" else "false"
  | .moment text => text
  | .array [] => "[]"
  | .array [item] => "[" ++ writeValue item ++ "]"
  | .array items => "[" ++ writeItems items ++ "\n]"
  | .table fields => "\x7b " ++ writeInline fields ++ " \x7d"

def writeItems : List Value → String
  | [] => ""
  | item :: rest => "\n    " ++ writeValue item ++ "," ++ writeItems rest

def writeInline : List (String × Value) → String
  | [] => ""
  | [(key, value)] => writeKey key ++ " = " ++ writeValue value
  | (key, value) :: rest => writeKey key ++ " = " ++ writeValue value ++ ", " ++ writeInline rest

end

/-- The lines of the fields that are no tables. -/
def writeFields (fields : Table) : List String :=
  fields.filterMap fun (key, value) ↦
    match value with
    | .table _ => none
    | value => some (writeKey key ++ " = " ++ writeValue value ++ "\n")

mutual

/-- The sections of the tables among some fields, each under its path. The header of a table that holds
nothing but tables is left out. -/
def writeSections (path : List String) : Table → List String
  | [] => []
  | (key, value) :: rest => writeSection (path ++ [key]) value ++ writeSections path rest

def writeSection (path : List String) : Value → List String
  | .table fields =>
    let lines := writeFields fields
    let header := "[" ++ ".".intercalate (path.map writeKey) ++ "]\n"
    (if lines.isEmpty && !fields.isEmpty then [] else [header ++ String.join lines]) ++
      writeSections path fields
  | _ => []

end

def write (fields : Table) : String :=
  let top := writeFields fields
  let sections := writeSections [] fields
  "\n".intercalate ((if top.isEmpty then [] else [String.join top]) ++ sections)

end AgentReply.Toml
