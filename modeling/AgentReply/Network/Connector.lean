import AgentReply.Channel.Transport
import AgentReply.Client.Any
import AgentReply.Network.Server

/-!
# Connectors

A connector opens connections of one kind to one place. Its owner holds the latest of them; opening
another one releases it. Here the connector works for itself and talks to a server.
-/

namespace AgentReply

structure Connector where
  kind : ChannelKind
  url : Url
  /-- The key with which sockets open. -/
  key : String
  /-- The generation that the signals are posted with. -/
  generation : Nat := 1
  clients : List Client := []
  /-- The number of the client whose transport the owner holds. -/
  held : Option Nat := none
  server : Server Nat := {}
  /-- Whether connections are possible. -/
  listening : Bool := true
  /-- What has been posted and not been taken. -/
  inbox : List Event := []
  /-- Whether anybody takes what is posted. -/
  delivers : Bool := true

namespace Connector

def perform (c : Connector) (client : Nat) (a : Action) : Connector :=
  match a with
  | .post signal => { c with inbox := c.inbox ++ [⟨c.kind, c.generation, signal⟩] }
  | a => { c with server := c.server.observe client a }

variable [Idna]

def stimulate (c : Connector) (i : Nat) (s : Stimulus) : Connector :=
  match c.clients[i]? with
  | none => c
  | some client =>
    let (actions, client) := client.step c.delivers s
    actions.foldl (perform · i) { c with clients := c.clients.set i client }

/-- Something happens to the connection that the server has accepted last. -/
def tell (c : Connector) (s : Stimulus) : Connector :=
  match c.server.client with
  | some client => if c.server.isLive then c.stimulate client s else c
  | none => c

/-- Refuses the connections that are asked for, if connections are not possible. -/
def refuse (c : Connector) : Connector :=
  if c.listening then c
  else
    c.server.waiting.foldl
      (fun c i ↦ c.stimulate i (.unreachable "Connection refused (os error 111)"))
      { c with server := { c.server with waiting := [] } }

def release (c : Connector) : Connector :=
  match c.held with
  | none => c
  | some i => { c.stimulate i .cancelled with held := none }

def connect (c : Connector) : Connector :=
  let c := c.release
  let i := c.clients.length
  let client := Client.create c.kind c.url c.key
  let c := { c with clients := c.clients ++ [client], held := some i }
  (client.start.foldl (perform · i) c).refuse

/-- The transport that the owner holds, as far as sending is concerned. -/
def transport? (c : Connector) : Option Transport :=
  c.held.map fun i ↦
    let writer : Writer :=
      match c.kind with
      | .events => .absent
      | .socket => if c.clients[i]?.any Client.isDone then .stopped else .running
    { generation := c.generation, writer := writer }

/-- Sends a message over the transport that the owner holds; `none` without one. -/
def send? (c : Connector) (message : String) : Option (Except String Unit) × Connector :=
  match c.held, c.transport? with
  | some i, some t =>
    match t.send message with
    | .ok _ => (some (.ok ()), c.stimulate i (.message message))
    | .error e => (some (.error e), c)
  | _, _ => (none, c)

def takeEvent? (c : Connector) : Option Event × Connector :=
  match c.delivers, c.inbox with
  | true, e :: inbox => (some e, { c with inbox := inbox })
  | _, _ => (none, c)

/-- The server accepts the next connection and takes the request on it. -/
def accept (c : Connector) : List UInt8 × Connector :=
  match c.server.accept? with
  | none => ([], c)
  | some (i, server) =>
    let c := { c with server := server }.stimulate i .connected
    let (octets, server) := c.server.takeOctets
    (octets, { c with server := server })

end Connector
end AgentReply
