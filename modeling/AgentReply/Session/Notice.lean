import AgentReply.Channel.Error
import AgentReply.Envelope.Basic

/-!
# Notices

What a session reports beside the reply itself, and the line that a user sees of it.
-/

namespace AgentReply

inductive Notice where
  | remoteError (envelope : Envelope)
  /-- An envelope that carries no text. -/
  | control (envelope : Envelope)
  | channelError (error : ChannelError)
  | channelClosed (channel : ChannelKind)
  /-- The delay before the attempt is in milliseconds. -/
  | reconnectScheduled (channel : ChannelKind) (attempt delay : Nat)
  /-- No further attempt is made after so many. -/
  | reconnectExhausted (channel : ChannelKind) (attempts : Nat)
deriving DecidableEq, Repr

namespace Notice

def line? : Notice → Option String
  | .remoteError envelope =>
    let content := (envelope.contentText?).getD envelope.content.compact
    some s!"remote error: {content}"
  | .control _ => none
  | .channelError error =>
    some <| match error.details with
      | some details => s!"{error.text} ({details})"
      | none => error.text
  | .channelClosed channel => some s!"{channel.name} channel closed"
  | .reconnectScheduled channel attempt delay =>
    some s!"{channel.name} channel: reconnect attempt {attempt} in {delay}ms"
  | .reconnectExhausted channel attempts =>
    some s!"{channel.name} channel: giving up after {attempts} reconnect attempts"

end Notice
end AgentReply
