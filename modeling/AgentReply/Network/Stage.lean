import AgentReply.Network.Server
import AgentReply.Watch.Wired

/-!
# Watches and servers

A watch together with the server that its transports talk to, and all that it has written.
-/

namespace AgentReply

structure Stage where
  watch : WiredWatch
  server : Server WireId := {}
  written : List Watch.Written := []

namespace Stage

def observe (s : Stage) : Effect → Stage
  | .write written => { s with written := s.written ++ [written] }
  | .perform wire action => { s with server := s.server.observe wire action }

def act (s : Stage) (step : WiredWatch → List Effect × WiredWatch) : Stage :=
  let (effects, w) := step s.watch
  effects.foldl observe { s with watch := w }

variable [Idna]

/-- Something happens to the connection that the server has accepted last. -/
def tell (s : Stage) (stimulus : Stimulus) : Stage :=
  match s.server.client with
  | some id => if s.server.isLive then s.act (·.stimulate id stimulus) else s
  | none => s

/-- Lets time pass until a connection is asked for, or nothing more is due; so often at most. -/
def awaitWithin (s : Stage) : Nat → Stage
  | 0 => s
  | limit + 1 =>
    match s.server.waiting, s.watch.isOver, s.watch.watch.nextDue? with
    | [], false, some span => (s.act (·.advance span)).awaitWithin limit
    | _, _, _ => s

/-- Lets time pass until a connection is asked for, or nothing more is due. Each time at least one timer
runs out, or the time for connecting does. -/
def await (s : Stage) : Stage :=
  s.awaitWithin (s.watch.watch.session.timers.length + 2)

/-- Accepts the next connection and answers the request on it, which is given too. -/
def accept? (s : Stage) (response : List UInt8 → List UInt8) : Option (List UInt8) × Stage :=
  let s := s.await
  match s.server.accept? with
  | none => (none, { s with server := { s.server with client := none } })
  | some (_, server) =>
    let s := { s with server := server }.tell .connected
    let (request, server) := s.server.takeOctets
    (some request, { s with server := server }.tell (.arrived (response request)))

/-- Refuses the next connection; `none` if there is none. -/
def refuse? (s : Stage) : Option Stage :=
  let s := s.await
  match s.server.waiting with
  | [] => none
  | id :: waiting =>
    let s := { s with server := { s.server with waiting := waiting } }
    some (s.act (·.stimulate id (.unreachable "Connection refused (os error 111)")))

end Stage
end AgentReply
