/-!
# Command lines

What stands on a command line behind the name of a command: flags, options with values, and plain
arguments. No flag or option may be repeated. After two hyphens all arguments are plain.
-/

namespace AgentReply

inductive UsageError where
  | missingCommand
  | unknownCommand (name : String)
  | unexpected (argument : String)
  | repeated (option : String)
  | missingValue (option : String)
  /-- A flag with a value. -/
  | uselessValue (flag : String)
  | invalidValue (option value : String)
deriving DecidableEq, Repr

def UsageError.message : UsageError → String
  | .missingCommand => "a command is required"
  | .unknownCommand name => s!"unrecognized command '{name}'"
  | .unexpected argument => s!"unexpected argument '{argument}'"
  | .repeated option => s!"the argument '--{option}' cannot be used multiple times"
  | .missingValue option => s!"a value is required for '--{option}'"
  | .uselessValue flag => s!"unexpected value for '--{flag}'"
  | .invalidValue option value => s!"invalid value '{value}' for '{option}'"

structure Form where
  flags : List String := []
  options : List String := []
  /-- How many plain arguments there may be. -/
  plain : Nat := 0

structure CommandLine where
  flags : List String := []
  options : List (String × String) := []
  plain : List String := []
deriving DecidableEq, Repr

inductive Argument where
  /-- A name after two hyphens, with what follows an equals sign. -/
  | named (name : String) (value : Option String)
  | short (letters : String)
  | plain (text : String)
deriving DecidableEq, Repr

/-- Two hyphens lead a name, one leads letters, and a lone one is plain. -/
def Argument.ofText (text : String) : Argument :=
  match text.toList with
  | '-' :: '-' :: rest =>
    let name := rest.takeWhile (· != '=')
    let value :=
      match rest.dropWhile (· != '=') with
      | '=' :: value => some (String.ofList value)
      | _ => none
    .named (String.ofList name) value
  | '-' :: c :: rest => .short (String.ofList (c :: rest))
  | _ => .plain text

namespace CommandLine

def has (l : CommandLine) (flag : String) : Bool := l.flags.contains flag

def value? (l : CommandLine) (option : String) : Option String := l.options.lookup option

def addFlag (l : CommandLine) (name : String) (value : Option String) :
    Except UsageError CommandLine :=
  if value.isSome then .error (.uselessValue name)
  else if l.has name then .error (.repeated name)
  else .ok { l with flags := l.flags ++ [name] }

def addOption (l : CommandLine) (name value : String) : Except UsageError CommandLine :=
  if (l.value? name).isSome then .error (.repeated name)
  else .ok { l with options := l.options ++ [(name, value)] }

def addPlain (f : Form) (l : CommandLine) (text : String) : Except UsageError CommandLine :=
  if f.plain ≤ l.plain.length then .error (.unexpected text)
  else .ok { l with plain := l.plain ++ [text] }

def readMore (f : Form) (l : CommandLine) : List String → Except UsageError CommandLine
  | [] => .ok l
  | "--" :: texts => texts.foldlM (addPlain f) l
  | text :: texts =>
    match Argument.ofText text with
    | .plain text => do (← l.addPlain f text).readMore f texts
    | .short _ => .error (.unexpected text)
    | .named name value =>
      if f.flags.contains name then do (← l.addFlag name value).readMore f texts
      else if f.options.contains name then
        match value, texts with
        | some value, texts => do (← l.addOption name value).readMore f texts
        | none, value :: texts =>
          match Argument.ofText value with
          | .plain value => do (← l.addOption name value).readMore f texts
          | _ => .error (.missingValue name)
        | none, [] => .error (.missingValue name)
      else .error (.unexpected text)

def read (f : Form) (texts : List String) : Except UsageError CommandLine := readMore f {} texts

end CommandLine
end AgentReply
