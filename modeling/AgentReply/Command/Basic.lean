import AgentReply.Command.Line

/-!
# Commands

What a user can ask for on the command line.
-/

namespace AgentReply

inductive ConfigCommand where
  | path
  | init
  | display
deriving DecidableEq, Repr

/-- How a session is to be watched. What is not given is taken from the settings. -/
structure WatchCommand where
  eventsUrl : Option String := none
  socketUrl : Option String := none
  mode : Option String := none
  asJson : Bool := false
  once : Bool := false
deriving DecidableEq, Repr

structure ParseCommand where
  /-- The file of the reply; standard input if there is none. -/
  file : Option String := none
  /-- The size of the pieces in which the reply arrives. -/
  chunkSize : Option Nat := none
  asJson : Bool := false
deriving DecidableEq, Repr

inductive Command where
  | version
  | help
  | watch (command : WatchCommand)
  | parse (command : ParseCommand)
  | config (command : ConfigCommand)
deriving DecidableEq, Repr

namespace Command

/-- A natural number below `2^64`, which may have a plus sign. -/
def readSize? (text : String) : Option Nat :=
  let digits :=
    match text.toList with
    | '+' :: digits => digits
    | digits => digits
  if digits.isEmpty || !digits.all Char.isDigit then none
  else
    let size := digits.foldl (fun n c ↦ 10 * n + (c.toNat - '0'.toNat)) 0
    if size < 0x10000000000000000 then some size else none

def readWatch (arguments : List String) : Except UsageError Command := do
  let form : Form := { flags := ["json", "once"], options := ["events", "socket", "mode"] }
  let l ← CommandLine.read form arguments
  return .watch
    { eventsUrl := l.value? "events"
      socketUrl := l.value? "socket"
      mode := l.value? "mode"
      asJson := l.has "json"
      once := l.has "once" }

def readParse (arguments : List String) : Except UsageError Command := do
  let form : Form := { flags := ["json"], options := ["chunk-size"], plain := 1 }
  let l ← CommandLine.read form arguments
  if l.plain.contains "" then throw (.invalidValue "FILE" "")
  let chunkSize ← (l.value? "chunk-size").mapM fun text ↦
    match readSize? text with
    | some size => .ok size
    | none => throw (.invalidValue "--chunk-size" text)
  return .parse { file := l.plain.head?, chunkSize := chunkSize, asJson := l.has "json" }

def readBare (command : Command) (arguments : List String) : Except UsageError Command := do
  let _ ← CommandLine.read {} arguments
  return command

def readConfig : List String → Except UsageError Command
  | [] => .error .missingCommand
  | "path" :: arguments => readBare (.config .path) arguments
  | "init" :: arguments => readBare (.config .init) arguments
  | "show" :: arguments => readBare (.config .display) arguments
  | name :: _ => .error (.unknownCommand name)

def asksForHelp (arguments : List String) : Bool :=
  (arguments.takeWhile (· != "--")).any fun text ↦ text == "--help" || text.startsWith "-h"

def read : List String → Except UsageError Command
  | [] => .error .missingCommand
  | name :: arguments =>
    if name == "--version" || name.startsWith "-V" then .ok .version
    else if name == "help" || asksForHelp (name :: arguments) then .ok .help
    else
      match name with
      | "watch" => readWatch arguments
      | "parse" => readParse arguments
      | "config" => readConfig arguments
      | _ => .error (.unknownCommand name)

def versionText : String := "tagstream 0.1\n"

def helpLines : List String :=
  [ "Watch agent sessions and parse tagged responses",
    "",
    "Usage: tagstream <COMMAND>",
    "",
    "Commands:",
    "  watch   Connect to an agent backend and print the live response",
    "            --events <URL>    Event stream URL (overrides config)",
    "            --socket <URL>    WebSocket URL (overrides config)",
    "            --mode <MODE>     Channels the session needs: events, socket or dual",
    "            --json            Print every snapshot as one JSON line",
    "            --once            Exit after the first completed turn",
    "  parse   Parse a tagged response from a file or stdin",
    "            [FILE]            Input file (reads stdin when omitted or \"-\")",
    "            --chunk-size <N>  Feed the input in chunks of N characters",
    "            --json            Print the parsed response as JSON",
    "  config  Manage configuration",
    "            path              Show the path to the config file",
    "            init              Initialize a default config file (if not present)",
    "            show              Print the effective configuration",
    "",
    "Options:",
    "  -h, --help     Print help",
    "  -V, --version  Print version" ]

def helpText : String := String.join (helpLines.map fun line ↦ line ++ "\n")

end Command
end AgentReply
