import AgentReply.Files.Error
import AgentReply.Session.Mode
import AgentReply.Settings.Endpoint

/-!
# Failures of commands

A command fails for one of these causes. The message says first what was attempted.
-/

namespace AgentReply

inductive Failure where
  | unreadableSettings (path : String) (error : FileError)
  | invalidSettings (path : String)
  /-- The path of the log file does not end in a name. -/
  | namelessLog (path : String)
  | logFolder (path : String) (error : FileError)
  | modeOption (error : Mode.Unknown)
  | eventsOption (error : Settings.UrlError)
  | socketOption (error : Settings.UrlError)
  | settingsUrl (error : Settings.UrlError)
  | unreadableReply (path : String) (error : FileError)
  | unreadableInput (error : FileError)
  | emptyChunks
  | settingsPresent (path : String)
  | settingsFolder (path folder : String) (error : FileError)
  | unwritableSettings (path : String) (error : FileError)
  /-- A number of the settings is too great for their document. -/
  | oversizedSettings
deriving DecidableEq, Repr

namespace Failure

def message : Failure → String
  | .unreadableSettings path error =>
    s!"load config: Failed to read config from {path}: {error.message}"
  | .invalidSettings path => s!"load config: Failed to parse config from {path}"
  | .namelessLog path => s!"log.file '{path}' has no file name"
  | .logFolder path error => s!"create log directory {path}: {error.message}"
  | .modeOption error => s!"parse --mode: {error.message}"
  | .eventsOption error => s!"parse --events: {error.message}"
  | .socketOption error => s!"parse --socket: {error.message}"
  | .settingsUrl error => error.message
  | .unreadableReply path error => s!"read {path}: {error.message}"
  | .unreadableInput error => s!"read stdin: {error.message}"
  | .emptyChunks => "--chunk-size must be at least 1"
  | .settingsPresent path => s!"init config at {path}: Config file already exists at {path}"
  | .settingsFolder path folder error =>
    s!"init config at {path}: Failed to create directory {folder}: {error.message}"
  | .unwritableSettings path error =>
    s!"init config at {path}: Failed to write config to {path}: {error.message}"
  | .oversizedSettings => "Failed to serialize config: out-of-range value for u64 type"

end Failure
end AgentReply
