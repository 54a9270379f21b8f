import AgentReply.Socket.Handshake

/-!
# Requests as a server reads them

A server looks at the first line of a request and at some of its fields. The response to a request for a
socket depends on the key in it alone.
-/

namespace AgentReply.Http

def requestLines (octets : List UInt8) : List String := (Utf8.decodeLossy octets).splitOn "\r\n"

def requestField? (lines : List String) (name : String) : Option String :=
  lines.findSome? fun line ↦
    match line.splitOn ": " with
    | key :: value => if Text.lowered key == name then some (": ".intercalate value) else none
    | [] => none

def requestLine (lines : List String) : String := lines.headD ""

/-- The response that opens the socket that a request asks for. -/
def agreementTo (lines : List String) : List UInt8 :=
  octetsOf (Socket.agreement ((requestField? lines "sec-websocket-key").getD ""))

end AgentReply.Http
