import AgentReply.Http.Head
import AgentReply.Http.Request
import AgentReply.Http.Status
import AgentReply.Socket.Digest
import AgentReply.Text.Base64

/-!
# Opening a socket

A socket begins as a request with a key. The server agrees by changing the protocol and by answering with
a value that only the key leads to.
-/

namespace AgentReply.Socket

inductive HandshakeError where
  /-- The response has another status than the change of protocols. -/
  | refused (status : Nat)
  | noUpgrade
  | noConnection
  | wrongKey
  | unwantedProtocol
  | oldVersion
  | badStatus
  | malformed (error : Http.HeadError)
  /-- The connection has ended before the response. -/
  | unfinished
deriving DecidableEq, Repr

def HandshakeError.message : HandshakeError → String
  | .refused status => s!"HTTP error: {Http.statusText status}"
  | .noUpgrade => "WebSocket protocol error: No \"Upgrade: websocket\" header"
  | .noConnection => "WebSocket protocol error: No \"Connection: upgrade\" header"
  | .wrongKey => "WebSocket protocol error: Key mismatch in \"Sec-WebSocket-Accept\" header"
  | .unwantedProtocol =>
    "WebSocket protocol error: SubProtocol error: Server sent a subprotocol but none was requested"
  | .oldVersion => "WebSocket protocol error: HTTP version must be 1.1 or higher"
  | .badStatus => "HTTP format error: invalid status code"
  | .malformed error => s!"WebSocket protocol error: httparse error: {error.message}"
  | .unfinished => "WebSocket protocol error: Handshake not finished"

def maxFields : Nat := 124

def keyOf (octets : List UInt8) : String := String.ofList (Base64.encode octets)

def answerTo (key : String) : String :=
  let octets := Http.octetsOf (key ++ "258EAFA5-E914-47DA-95CA-C5AB0DC85B11")
  String.ofList (Base64.encode (Sha1.digest octets))

def request (u : Url) (key : String) : String :=
  Http.request u [("Host", Http.hostField u), ("Connection", "Upgrade"), ("Upgrade", "websocket"),
    ("Sec-WebSocket-Version", "13"), ("Sec-WebSocket-Key", key)]

/-- Whether a response agrees to open the socket of a key. -/
def checkHead (key : String) (h : Http.Head) : Except HandshakeError Unit :=
  let holds (name value : String) : Bool := (h.getText? name).map Text.lowered == some value
  if h.minorVersion < 1 then .error .oldVersion
  else if h.status < 100 then .error .badStatus
  else if h.status != 101 then .error (.refused h.status)
  else if !holds "upgrade" "websocket" then .error .noUpgrade
  else if !holds "connection" "upgrade" then .error .noConnection
  else if h.get? "sec-websocket-accept" != some (Http.octetsOf (answerTo key)) then
    .error .wrongKey
  else if (h.get? "sec-websocket-protocol").isSome then .error .unwantedProtocol
  else .ok ()

/-- The response of a server that agrees. -/
def agreement (key : String) : String :=
  "HTTP/1.1 101 Switching Protocols\r\nConnection: Upgrade\r\nUpgrade: websocket\r\n" ++
    s!"Sec-WebSocket-Accept: {answerTo key}\r\n\r\n"

end AgentReply.Socket
