import AgentReply.Command.Basic
import AgentReply.Command.Store
import AgentReply.Watch.Plan

/-!
# Running commands

Every command but the one that watches a session is done at once; that one gives a plan. The settings
have to be sound for watching and parsing, but not for managing them.
-/

namespace AgentReply.Command

variable {m : Type → Type} [Monad m] [Host m] [Idna]

/-- Sees to the folder of the log file, if there is to be one. -/
def prepareLog (log : Settings.Log) : ExceptT Failure m Unit := do
  match log.file.filter (!Text.isBlankText ·) with
  | none => return
  | some path =>
    if (Path.fileName? path).isNone then throw (.namelessLog path)
    let folder := ((Path.parent? path).filter (!·.isEmpty)).getD "."
    match ← createFolders folder with
    | .ok () => return
    | .error e => throw (.logFolder folder e)

def loadSettings : ExceptT Failure m Settings := do
  let settings ← Store.load
  prepareLog settings.log
  return settings

def overrides : m Settings.Overrides := do
  return ⟨← Host.lookup? "TAGSTREAM_EVENTS_URL", ← Host.lookup? "TAGSTREAM_SOCKET_URL"⟩

/-! ### Parsing -/

def readText (file : Option String) : ExceptT Failure m String := do
  match file.filter (Path.parts · != ["-"]) with
  | none =>
    match Utf8.decode? (← Host.readInput) with
    | some text => return text
    | none => throw (.unreadableInput .notText)
  | some path =>
    match ← Host.readFile path with
    | .error e => throw (.unreadableReply path e)
    | .ok content =>
      match Utf8.decode? content with
      | some text => return text
      | none => throw (.unreadableReply path .notText)

def runParse (c : ParseCommand) : ExceptT Failure m Unit := do
  let settings ← loadSettings
  let text ← readText c.file
  if c.chunkSize = some 0 then throw .emptyChunks
  let reply := (Assembly.ofText settings.tags.vocabulary text c.chunkSize).turn.reply
  Host.print (if c.asJson then reply.toJson.pretty ++ "\n" else reply.render)

/-! ### Settings -/

def urlComments (s : Settings) (given : Settings.Overrides) : String :=
  let shown (url : Except Settings.UrlError Url) : String :=
    match url with
    | .ok url => url.text
    | .error e => e.message
  s!"# events url: {shown (s.eventsUrl given)}\n# socket url: {shown (s.socketUrl given)}\n"

def runConfig : ConfigCommand → ExceptT Failure m Unit
  | .path => do Host.print ((← Store.path) ++ "\n")
  | .init => do Host.print s!"Created config at {← Store.create}\n"
  | .display => do
    let settings ← Store.load
    match settings.toToml? with
    | none => throw .oversizedSettings
    | some text => Host.print (text ++ "\n" ++ urlComments settings (← overrides))

/-! ### Watching -/

/-- The mode of the session: from the command line, the environment or the settings. -/
def watchMode (c : WatchCommand) (s : Settings) : ExceptT Failure m Mode := do
  match c.mode.or (← Host.lookup? "TAGSTREAM_MODE") with
  | none => return s.channels.mode
  | some text =>
    match Mode.parse text with
    | .ok mode => return mode
    | .error e => throw (.modeOption e)

def eventsUrl (c : WatchCommand) (s : Settings) : ExceptT Failure m Url := do
  match c.eventsUrl with
  | some raw => ExceptT.mk (pure ((Settings.parseUrl Settings.httpSchemes raw).mapError .eventsOption))
  | none => ExceptT.mk (do return (s.eventsUrl (← overrides)).mapError .settingsUrl)

def socketUrl (c : WatchCommand) (s : Settings) : ExceptT Failure m Url := do
  match c.socketUrl with
  | some raw =>
    ExceptT.mk (pure ((Settings.parseUrl Settings.socketSchemes raw).mapError .socketOption))
  | none => ExceptT.mk (do return (s.socketUrl (← overrides)).mapError .settingsUrl)

def planWatch (c : WatchCommand) : ExceptT Failure m WatchPlan := do
  let settings ← loadSettings
  let mode ← watchMode c settings
  let url? (kind : ChannelKind) (url : ExceptT Failure m Url) : ExceptT Failure m (Option Url) :=
    if mode.requires kind then some <$> url else pure none
  let events ← url? .events (eventsUrl c settings)
  let socket ← url? .socket (socketUrl c settings)
  return {
    session := Session.ofMode mode
      ⟨settings.tags.vocabulary, settings.envelope.deltaTypes, settings.reconnect.backoff⟩
    options := ⟨c.asJson, c.once, settings.channels.connectTimeout⟩
    endpoints := ⟨events, socket⟩ }

/-- Runs a command; what is left to do is to watch a session, if there is a plan. -/
def run : Command → ExceptT Failure m (Option WatchPlan)
  | .version => do Host.print versionText; return none
  | .help => do Host.print helpText; return none
  | .parse c => do runParse c; return none
  | .config c => do runConfig c; return none
  | .watch c => some <$> planWatch c

end AgentReply.Command
