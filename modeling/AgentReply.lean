import AgentReply.Command.Machine
import AgentReply.Main
import AgentReply.Network.Connector
import AgentReply.Network.Request
import AgentReply.Network.Stage
import AgentReply.Proofs.Text.Trim
import AgentReply.Settings.Section
import AgentReply.Proofs.Markup.Tag
import AgentReply.Proofs.Markup.HoldBack
import AgentReply.Proofs.Markup.Reading
import AgentReply.Proofs.Markup.Streaming
import AgentReply.Proofs.Markup.Outline
import AgentReply.Proofs.Markup.Writing
import AgentReply.Proofs.Session.Run
import AgentReply.Proofs.Session.Turns
import AgentReply.Proofs.Channel.Hearing
import AgentReply.Proofs.Session.Frames
import AgentReply.Proofs.Channel.Upkeep
import AgentReply.Proofs.Session.Links
import AgentReply.Proofs.Session.Silence
import AgentReply.Proofs.Session.Live
import AgentReply.Proofs.Session.Retries
import AgentReply.Proofs.Markup.CloseFragment
import AgentReply.Proofs.Markup.Verbatim
import AgentReply.Proofs.Reply.Grouping
import AgentReply.Proofs.Markup.Extent
import AgentReply.Proofs.Markup.Order
import AgentReply.Proofs.Markup.Payload
import AgentReply.Proofs.Markup.Arriving
import AgentReply.Proofs.Reply.Keys
import AgentReply.Proofs.Reply.Assembly
import AgentReply.Proofs.Session.Attempts
import AgentReply.Proofs.Watch.Printing
import AgentReply.Proofs.Json.Scan
import AgentReply.Proofs.Json.Trim
import AgentReply.Proofs.Reply.Records
import AgentReply.Proofs.Session.Connected
import AgentReply.Proofs.Session.Completion
import AgentReply.Proofs.Session.Sending
import AgentReply.Proofs.Session.Notices
import AgentReply.Proofs.Watch.Ending
import AgentReply.Proofs.Json.Fields
import AgentReply.Proofs.Envelope.Reading
import AgentReply.Proofs.Envelope.Messages
import AgentReply.Proofs.Reply.Untagged
import AgentReply.Proofs.Markup.Sections
import AgentReply.Proofs.Markup.Occurrence
import AgentReply.Proofs.Markup.FixedPoint
import AgentReply.Proofs.Markup.Siblings
import AgentReply.Proofs.Reply.Arguments
import AgentReply.Proofs.Channel.Delays
import AgentReply.Proofs.Markup.Grouped
import AgentReply.Proofs.Json.Numbers
import AgentReply.Proofs.Json.RoundTrip
import AgentReply.Proofs.Envelope.Forwarding
import AgentReply.Proofs.Markup.Place
import AgentReply.Proofs.Markup.Fragment
import AgentReply.Proofs.Settings.File
import AgentReply.Proofs.Settings.Endpoint
import AgentReply.Proofs.Client.Life
import AgentReply.Proofs.Client.Pieces
