import AgentReply.Settings.Basic
import AgentReply.Text.Blank
import AgentReply.Url.Reader

/-!
# Endpoints

The URLs of the channels. A URL from the environment comes first, then one from the configuration, and
last the one that the base URL of the backend leads to. Blank ones do not count.
-/

namespace AgentReply.Settings

inductive UrlError where
  | invalid (raw : String) (cause : Url.ParseError)
  | wrongScheme (raw : String) (schemes : List String)
  | noBackend
deriving DecidableEq, Repr

def UrlError.message : UrlError → String
  | .invalid raw cause => s!"Invalid URL '{raw}': {cause.message}"
  | .wrongScheme raw schemes =>
    s!"URL '{raw}' must use one of: " ++ ", ".intercalate schemes
  | .noBackend => "No backend_url configured; set channels.backend_url or the channel URLs"

/-- A URL with one of the given schemes. -/
def parseUrl [Idna] (schemes : List String) (raw : String) : Except UrlError Url :=
  match Url.parse (Text.trimmed raw) with
  | .error cause => .error (.invalid raw cause)
  | .ok url => if schemes.contains url.scheme then .ok url else .error (.wrongScheme raw schemes)

def httpSchemes : List String := ["http", "https"]

def socketSchemes : List String := ["ws", "wss"]

def eventsPath : String := "/api/v1/agents/sse"

structure Overrides where
  events : Option String := none
  socket : Option String := none

/-- The first of some texts that is not blank. -/
def firstGiven (texts : List (Option String)) : Option String :=
  texts.findSome? fun text ↦ text.filter fun s ↦ !Text.isBlankText s

def backendUrl [Idna] (s : Settings) : Except UrlError Url :=
  match firstGiven [s.channels.backendUrl] with
  | none => .error .noBackend
  | some raw => parseUrl httpSchemes raw

def withoutSlashes (u : Url) : String :=
  String.ofList (u.write.reverse.dropWhile (· == '/')).reverse

def eventsUrl [Idna] (s : Settings) (given : Overrides) : Except UrlError Url :=
  match firstGiven [given.events, s.channels.eventsUrl] with
  | some raw => parseUrl httpSchemes raw
  | none => do
    let backend ← s.backendUrl
    parseUrl httpSchemes (withoutSlashes backend ++ eventsPath)

def socketUrl [Idna] (s : Settings) (given : Overrides) : Except UrlError Url :=
  match firstGiven [given.socket, s.channels.socketUrl] with
  | some raw => parseUrl socketSchemes raw
  | none => do
    let backend ← s.backendUrl
    return { backend with
      scheme := if backend.scheme == "https" then "wss" else "ws"
      path := .segments ["ws".toList]
      query := none }

end AgentReply.Settings
