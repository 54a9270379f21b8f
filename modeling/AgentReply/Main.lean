import AgentReply.Command.Run
import AgentReply.Socket.Digest
import AgentReply.Text.Uuid
import AgentReply.Url.Names
import Std.Async.DNS
import Std.Async.TCP
import Std.Async.Timer
import Std.Sync.Channel

/-!
# The program

The command line on a real machine. Commands run in `IO`. A watch is fed with what happens on its
connections, with what the user types and with the time; connections are plain TCP, and hosts have names in
common scripts. What the user types is read to its end, also after the watch is over.
-/

namespace AgentReply.Program

instance : Idna := .common

/-! ### Errors of the system -/

/-- The number of an error; some come with a negative one. -/
def errorNumber (code : UInt32) : Nat :=
  if code < 0x80000000 then code.toNat else (0 - code).toNat

/-- The number and the text of an error. -/
def numberOf? : IO.Error → Option (Nat × String)
  | .alreadyExists _ code text | .interrupted _ code text | .noFileOrDirectory _ code text
  | .invalidArgument _ code text | .permissionDenied _ code text
  | .resourceExhausted _ code text | .inappropriateType _ code text | .noSuchThing _ code text
  | .otherError code text | .resourceBusy code text | .resourceVanished code text
  | .unsupportedOperation code text | .hardwareFault code text
  | .unsatisfiedConstraints code text | .illegalOperation code text | .protocolError code text
  | .timeExpired code text => some (errorNumber code, text.capitalize)
  | .unexpectedEof | .userError _ => none

def fileError (e : IO.Error) : FileError :=
  match numberOf? e with
  | some (code, text) => .ofNumber code text
  | none => .other 0 (toString e)

/-- Why there is no connection. -/
def reasonOf (e : IO.Error) : String :=
  if (numberOf? e).isSome then (fileError e).message else toString e

def attempt {α : Type} (action : IO α) : IO (Except FileError α) := do
  try return .ok (← action)
  catch e => return .error (fileError e)

/-! ### The machine -/

partial def readAll (input : IO.FS.Stream) (soFar : ByteArray) : IO ByteArray := do
  let octets ← input.read 65536
  if octets.isEmpty then return soFar else readAll input (soFar ++ octets)

instance : Host IO where
  lookup? name := IO.getEnv name
  accountHome? := return none
  isThere path := do return (← attempt (IO.FS.realPath path)).isOk
  readFile path := do return (← attempt (IO.FS.readBinFile path)).map (·.toList)
  writeFile path content := attempt (IO.FS.writeBinFile path ⟨content.toArray⟩)
  isFolder path := do
    match ← attempt (IO.FS.realPath path) with
    | .ok place => place.isDir
    | .error _ => return false
  createFolder path := attempt (IO.FS.createDir path)
  readInput := do return (← readAll (← IO.getStdin) .empty).toList
  print text := do
    let output ← IO.getStdout
    output.putStr text
    output.flush

/-! ### The network -/

abbrev Socket := Std.Async.TCP.Socket.Client

/-- What happens to a watch. A connection is known by its wire and by the number of its dialing. -/
inductive Happening where
  | connected (wire : WireId) (dialing : Nat) (socket : Socket)
  | stimulus (wire : WireId) (dialing : Nat) (s : Stimulus)
  | typed (octets : List UInt8)
  | inputEnded
  /-- Something may be due. -/
  | tick

instance : Inhabited Happening := ⟨.tick⟩

abbrev Happenings := Std.Channel Happening

def report (happenings : Happenings) (h : Happening) : IO Unit := do
  let _ ← happenings.send h

def addressOf (ip : Std.Net.IPAddr) (port : UInt16) : Std.Net.SocketAddress :=
  match ip with
  | .v4 ip => .v4 ⟨ip, port⟩
  | .v6 ip => .v6 ⟨ip, port⟩

/-- The name of the host of a URL, without the brackets of a number. -/
def hostName (u : Url) : String :=
  String.ofList ((u.host.elim [] Url.Host.write).filter fun c ↦ c != '[' && c != ']')

def portOf (u : Url) : Nat := u.port.getD ((Url.specialPorts.lookup u.scheme).getD 0)

/-- Tries the addresses of a host one after the other. -/
def connectFirst (port : UInt16) : List Std.Net.IPAddr → Std.Async.Async Socket
  | [] => throw (IO.userError "no address")
  | ip :: ips => do
    let socket ← Std.Async.TCP.Socket.Client.mk
    if ips.isEmpty then
      socket.connect (addressOf ip port)
      return socket
    else
      try
        socket.connect (addressOf ip port)
        return socket
      catch _ => connectFirst port ips

def connectTo (u : Url) : Std.Async.Async Socket := do
  if u.scheme == "https" || u.scheme == "wss" then
    throw (IO.userError "TLS support not compiled in")
  let ips ← Std.Async.DNS.getAddrInfo (hostName u) (toString (portOf u))
  connectFirst (portOf u).toUInt16 ips.toList

/-- Reports what arrives on a connection until it ends. -/
partial def receive (happenings : Happenings) (wire : WireId) (dialing : Nat) (socket : Socket) :
    Std.Async.Async Unit := do
  let octets? ← try Except.ok <$> socket.recv? 65536 catch e => pure (.error (reasonOf e))
  match octets? with
  | .error reason => report happenings (.stimulus wire dialing (.lost reason))
  | .ok none => report happenings (.stimulus wire dialing .ended)
  | .ok (some octets) =>
    report happenings (.stimulus wire dialing (.arrived octets.toList))
    receive happenings wire dialing socket

/-- Connects and reports how it went and what arrives then. -/
def dial (happenings : Happenings) (wire : WireId) (dialing : Nat) (u : Url) :
    Std.Async.Async Unit := do
  let socket? ← try Except.ok <$> connectTo u catch e => pure (.error (reasonOf e))
  match socket? with
  | .error reason => report happenings (.stimulus wire dialing (.unreachable reason))
  | .ok socket =>
    report happenings (.connected wire dialing socket)
    receive happenings wire dialing socket

/-! ### Watching -/

/-- Sixteen octets for a purpose, which only the seed leads to. -/
def derived (seed : List UInt8) (purpose : String) (number : Nat) : List UInt8 :=
  (Sha1.digest (seed ++ Http.octetsOf s!"{purpose}{number}")).take 16

structure Connection where
  wire : WireId
  dialing : Nat
  socket : Option Socket := none

structure Running where
  happenings : Happenings
  seed : List UInt8
  watch : WiredWatch
  connections : List Connection := []
  dialings : Nat := 0
  /-- The time that the watch knows. -/
  now : Nat
  nextTick : Option Nat := none

namespace Running

def connection? (r : Running) (wire : WireId) : Option Connection :=
  r.connections.find? (·.wire = wire)

def forget (r : Running) (wire : WireId) : Running :=
  { r with connections := r.connections.filter (·.wire != wire) }

/-- Sends octets; a failure is reported. -/
def transmit (r : Running) (wire : WireId) (octets : List UInt8) (failure : String → Stimulus) :
    IO Unit := do
  match r.connection? wire with
  | some { dialing, socket := some socket, .. } =>
    try (socket.send ⟨octets.toArray⟩).block
    catch e => report r.happenings (.stimulus wire dialing (failure (reasonOf e)))
  | _ => return

def write (r : Running) : Watch.Written → IO Unit
  | .line text => IO.eprintln text
  | .turn shown => Host.print (shown.text fun n ↦ Uuid.text (derived r.seed "turn" n))

def perform (r : Running) (wire : WireId) : Action → IO Running
  | .dial url => do
    let dialing := r.dialings + 1
    let r := r.forget wire
    let _ ← (dial r.happenings wire dialing url).asTask
    return { r with dialings := dialing, connections := { wire, dialing } :: r.connections }
  | .transmit octets => do
    r.transmit wire octets .lost
    return r
  | .sendFrame frame => do
    let mask ← IO.getRandomBytes 4
    r.transmit wire (frame.write (some mask.toList)) (if frame.opcode = .text then .unsent else .lost)
    return r
  | .hangUp => do
    match (r.connection? wire).bind Connection.socket with
    | none => pure ()
    | some socket => let _ ← socket.shutdown.asTask
    return r.forget wire
  | .post _ => return r

def act (r : Running) (step : List Effect × WiredWatch) : IO Running :=
  step.1.foldlM (fun r effect ↦
    match effect with
    | .write written => do
      r.write written
      return r
    | .perform wire action => r.perform wire action) { r with watch := step.2 }

/-- Lets the watch know the time. -/
def catchUp (r : Running) : IO Running := do
  let now ← IO.monoMsNow
  let r := { r with nextTick := r.nextTick.filter (now < ·) }
  { r with now := now }.act (r.watch.advance (now - r.now))

/-- Asks for a tick when something is due. -/
def schedule (r : Running) : IO Running := do
  match r.watch.watch.nextDue? with
  | none => return r
  | some span =>
    let due := r.now + span
    if r.nextTick.any (· ≤ due) then return r
    let wait : Std.Async.Async Unit := do
      Std.Async.sleep (.ofNat span)
      report r.happenings .tick
    let _ ← wait.asTask
    return { r with nextTick := some due }

def handle (r : Running) : Happening → IO Running
  | .tick => return r
  | .typed octets => r.act (r.watch.type octets)
  | .inputEnded => r.act r.watch.endInput
  | .stimulus wire dialing s => do
    if (r.connection? wire).any (·.dialing = dialing) then r.act (r.watch.stimulate wire s)
    else return r
  | .connected wire dialing socket => do
    if (r.connection? wire).any (·.dialing = dialing) then
      let connection : Connection := { wire, dialing, socket := some socket }
      let r := { r.forget wire with connections := connection :: (r.forget wire).connections }
      r.act (r.watch.stimulate wire .connected)
    else
      let _ ← socket.shutdown.asTask
      return r

partial def loop (r : Running) : IO Running := do
  if r.watch.isOver then return r
  let r ← r.schedule
  let h ← IO.wait (← r.happenings.recv)
  let r ← r.catchUp
  (← r.handle h).loop

end Running

partial def readTyped (happenings : Happenings) (input : IO.FS.Stream) : IO Unit := do
  let line ← try (·.toUTF8) <$> input.getLine catch _ => pure .empty
  if line.isEmpty then report happenings .inputEnded
  else
    report happenings (.typed line.toList)
    readTyped happenings input

def watch (plan : WatchPlan) : IO UInt32 := do
  let seed := (← IO.getRandomBytes 16).toList
  let happenings : Happenings ← Std.Channel.new
  let (effects, watch) := plan.begin fun generation ↦ Socket.keyOf (derived seed "key" generation)
  if plan.session.mode.requires .socket then
    let input ← IO.getStdin
    let _ ← IO.asTask (readTyped happenings input) .dedicated
  let r : Running := { happenings, seed, watch, now := ← IO.monoMsNow }
  let r ← (← r.act (effects, watch)).loop
  match r.watch.watch.outcome.bind Watch.Outcome.error? with
  | none => return 0
  | some error => do
    IO.eprintln error
    return 1

/-- Runs the program and gives its exit code. -/
def run (arguments : List String) : IO UInt32 := do
  match Command.read arguments with
  | .error e => do
    IO.eprintln s!"error: {e.message}"
    return 2
  | .ok command =>
    match ← (Command.run command : ExceptT Failure IO _) with
    | .error e => do
      IO.eprintln e.message
      return 1
    | .ok none => return 0
    | .ok (some plan) => watch plan

end AgentReply.Program

def main (arguments : List String) : IO UInt32 :=
  AgentReply.Program.run arguments
