import AgentReply.Command.Failure
import AgentReply.Command.Folders
import AgentReply.Settings.File
import AgentReply.Settings.Template
import AgentReply.Text.Utf8

/-!
# The settings file

Where the settings are kept, and how they are loaded and first created. Without a file all settings have
their default values.
-/

namespace AgentReply.Store

variable {m : Type → Type} [Monad m] [Host m]

def userHome? : m (Option String) := do
  match (← Host.lookup? "HOME").filter (!·.isEmpty) with
  | some home => return some home
  | none => Host.accountHome?

/-- The folder of the program: the one that the environment names, or one below the user's home. -/
def home : m String := do
  match ← Host.lookup? "TAGSTREAM_HOME" with
  | some folder => return folder
  | none =>
    match ← userHome? with
    | some folder => return Path.join (Path.join folder ".config") "tagstream"
    | none => return ".tagstream"

def path : m String := do return Path.join (← home) "config.toml"

def load : ExceptT Failure m Settings := do
  let path ← path
  if ← Host.isThere path then
    match ← Host.readFile path with
    | .error e => throw (.unreadableSettings path e)
    | .ok content =>
      match Utf8.decode? content with
      | none => throw (.unreadableSettings path .notText)
      | some text =>
        match Settings.ofToml? text with
        | some settings => return settings
        | none => throw (.invalidSettings path)
  else return {}

/-- Creates the settings file, unless there is something in its place, and gives its path. -/
def create : ExceptT Failure m String := do
  let path ← path
  if ← Host.isThere path then throw (.settingsPresent path)
  match Path.parent? path with
  | none => pure ()
  | some folder =>
    match ← createFolders folder with
    | .ok () => pure ()
    | .error e => throw (.settingsFolder path folder e)
  match ← Host.writeFile path (Utf8.encode Settings.template.toList) with
  | .ok () => return path
  | .error e => throw (.unwritableSettings path e)

end AgentReply.Store
