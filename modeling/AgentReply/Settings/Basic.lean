import AgentReply.Channel.Backoff
import AgentReply.Channel.Kind
import AgentReply.Markup.Vocabulary

/-!
# Settings

The sections of a configuration with the values they have by default, and what follows from them: the
backoff, the vocabulary and the time allowed for connecting.
-/

namespace AgentReply.Settings

/-- Where the channels connect, and which of them a session needs. -/
structure Channels where
  backendUrl : Option String := some "http://localhost:8000"
  eventsUrl : Option String := none
  socketUrl : Option String := none
  mode : Mode := .dual
  /-- The seconds to wait for a session to connect; zero waits forever. -/
  connectTimeout : Nat := 10
deriving DecidableEq, Repr

inductive Strategy where
  | never
  | fixed
  | exponential
deriving DecidableEq, Repr

def Strategy.name : Strategy → String
  | .never => "never"
  | .fixed => "fixed"
  | .exponential => "exponential"

def Strategy.ofName? : String → Option Strategy
  | "never" => some .never
  | "fixed" => some .fixed
  | "exponential" => some .exponential
  | _ => none

/-- How failed channels are connected again. Delays are in milliseconds. -/
structure Reconnect where
  strategy : Strategy := .exponential
  initialDelay : Nat := 500
  maxDelay : Nat := 30000
  /-- The greatest number of attempts; zero for no limit. -/
  maxAttempts : Nat := 10
deriving DecidableEq, Repr

/-- The greatest delay is never below the initial one. -/
def Reconnect.backoff (r : Reconnect) : Backoff :=
  let limit := if r.maxAttempts = 0 then none else some r.maxAttempts
  match r.strategy with
  | .never => .never
  | .fixed => .fixed r.initialDelay limit
  | .exponential => .exponential r.initialDelay (max r.maxDelay r.initialDelay) limit

structure Tags where
  envelopes : List String := ["response"]
  known : List String :=
    ["observation", "mindspace", "thought", "reflection", "type", "result", "tool_calls",
      "artifacts", "tool_call_results", "tool", "name", "arguments", "artifact", "language",
      "identifier", "title", "content"]
  verbatim : List String := ["content", "arguments"]
  /-- Collection names with the name of their items, in increasing order of the names. -/
  collections : List (String × String) :=
    [("artifacts", "artifact"), ("tool_call_results", "tool"), ("tool_calls", "tool")]
deriving DecidableEq, Repr

def Tags.vocabulary (t : Tags) : Vocabulary :=
  let known := Vocabulary.ofNames t.known
  let enveloped := t.envelopes.foldl Vocabulary.addEnvelope known
  let verbatim := t.verbatim.foldl Vocabulary.addVerbatim enveloped
  t.collections.foldl (fun v (name, item) ↦ v.addCollection name item) verbatim

/-- The types of envelopes that carry reply text. -/
structure Envelopes where
  deltaTypes : List String := ["generate", "delta", "generate_response", "chat_reply"]
deriving DecidableEq, Repr

structure Log where
  level : String := "warn"
  file : Option String := none
deriving DecidableEq, Repr

end Settings

structure Settings where
  channels : Settings.Channels := {}
  reconnect : Settings.Reconnect := {}
  tags : Settings.Tags := {}
  envelope : Settings.Envelopes := {}
  log : Settings.Log := {}
deriving DecidableEq, Repr

namespace Settings

/-- The milliseconds to wait for a session to connect; `none` to wait forever. -/
def connectTimeout? (s : Settings) : Option Nat :=
  if s.channels.connectTimeout = 0 then none else some (1000 * s.channels.connectTimeout)

end Settings
end AgentReply
