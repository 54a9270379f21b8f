/-!
# The first settings file

The file that a user starts from: every setting with its default value and a comment.
-/

namespace AgentReply.Settings

def templateLines : List String :=
  [ "# tagstream configuration",
    "#",
    "# Lives at $TAGSTREAM_HOME/config.toml (default ~/.config/tagstream/config.toml).",
    "# Every key is optional; missing keys fall back to the values shown here.",
    "",
    "[channels]",
    "# Base URL of the agent backend. The event stream defaults to",
    "# \x7bbackend_url\x7d/api/v1/agents/sse and the socket to ws(s)://\x7bhost\x7d/ws.",
    "backend_url = \"http://localhost:8000\"",
    "# Explicit overrides (also TAGSTREAM_EVENTS_URL / TAGSTREAM_SOCKET_URL).",
    "# events_url = \"http://localhost:8000/api/v1/agents/sse\"",
    "# socket_url = \"ws://localhost:8000/ws\"",
    "# Channels a session needs: \"events\", \"socket\" or \"dual\".",
    "mode = \"dual\"",
    "# Seconds `tagstream watch` waits for the session to connect (0 waits forever).",
    "connect_timeout_secs = 10",
    "",
    "[reconnect]",
    "# \"never\", \"fixed\" or \"exponential\".",
    "strategy = \"exponential\"",
    "initial_delay_ms = 500",
    "max_delay_ms = 30000",
    "# 0 retries forever.",
    "max_attempts = 10",
    "",
    "[tags]",
    "envelopes = [\"response\"]",
    "known = [",
    "    \"observation\",",
    "    \"mindspace\",",
    "    \"thought\",",
    "    \"reflection\",",
    "    \"type\",",
    "    \"result\",",
    "    \"tool_calls\",",
    "    \"artifacts\",",
    "    \"tool_call_results\",",
    "    \"tool\",",
    "    \"name\",",
    "    \"arguments\",",
    "    \"artifact\",",
    "    \"language\",",
    "    \"identifier\",",
    "    \"title\",",
    "    \"content\",",
    "]",
    "# Payload kept verbatim, never scanned for nested tags.",
    "opaque = [\"content\", \"arguments\"]",
    "",
    "[tags.collections]",
    "artifacts = \"artifact\"",
    "tool_calls = \"tool\"",
    "tool_call_results = \"tool\"",
    "",
    "[envelope]",
    "# Envelope `type` values whose string content is response text.",
    "delta_types = [\"generate\", \"delta\", \"generate_response\", \"chat_reply\"]",
    "",
    "[log]",
    "# Filter used when TAGSTREAM_LOG is unset.",
    "level = \"warn\"",
    "# Daily-rotated log file instead of stderr.",
    "# file = \"/tmp/tagstream.log\"" ]

def template : String := String.join (templateLines.map fun line ↦ line ++ "\n")

end AgentReply.Settings
