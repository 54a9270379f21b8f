import AgentReply.Session.Live
import AgentReply.Watch.Printer

/-!
# Watching a session

A watch connects a session and handles its events one at a time, and the lines that the user types. After
each of them it writes the notices and the turn, if that has changed, and ends once nothing more can
happen: when every channel is closed or has failed for good.
-/

namespace AgentReply

namespace Watch

structure Options where
  asJson : Bool := false
  /-- Whether the watch ends with the first complete turn. -/
  once : Bool := false
  /-- The seconds to wait for the session to connect; zero waits forever. -/
  connectTimeout : Nat := 0
deriving DecidableEq, Repr

inductive Outcome where
  | ended
  /-- A channel has failed for good. -/
  | exhausted
  | timedOut (mode : Mode) (seconds : Nat)
deriving DecidableEq, Repr

def Outcome.error? : Outcome → Option String
  | .ended => none
  | .exhausted => some "Session ended: reconnect attempts exhausted"
  | .timedOut mode seconds =>
    some s!"Timed out after {seconds}s waiting for the {mode.name} session to connect"

/-- What a watch writes: a turn on standard output or a line on standard error. -/
inductive Written where
  | turn (shown : Shown)
  | line (text : String)
deriving DecidableEq, Repr

end Watch

structure Watch where
  options : Watch.Options
  live : LiveSession
  printer : Printer
  /-- How many publications of the turn the watch has seen. -/
  seen : Nat := 0
  everConnected : Bool := false
  /-- The channels that were given up. -/
  exhausted : List ChannelKind := []
  outcome : Option Watch.Outcome := none

namespace Watch

/-- Connects a session and begins to watch it. -/
def begin (session : Session) (o : Options) : Watch :=
  let session := session.connect.2
  { options := o, live := { session := session }, printer := { asJson := o.asJson } }

def session (w : Watch) : Session := w.live.session

/-- The watch with its session changed and no time passed. -/
def update (w : Watch) (session : Session) : Watch :=
  { w with live := w.live.update session }

/-- The channels that are given up after a notice. -/
def giveUp (exhausted : List ChannelKind) : Notice → List ChannelKind
  | .reconnectExhausted kind _ => if exhausted.contains kind then exhausted else exhausted ++ [kind]
  | _ => exhausted

def phase? (w : Watch) (kind : ChannelKind) : Option Phase :=
  (w.session.channel? kind).map Channel.phase

def isSpent (w : Watch) (kind : ChannelKind) : Bool :=
  match w.phase? kind with
  | none | some .closed => true
  | some .failed => w.exhausted.contains kind
  | some .connecting | some .opened => false

/-! ### After each step -/

/-- Ends the watch: the session is disconnected, and an unfinished turn is printed. -/
def finish (w : Watch) (o : Outcome) : List Written × Watch :=
  let session := w.session.disconnect
  let (shown, printer) := w.printer.finish session.snapshot.value
  (shown.toList.map .turn, { w.update session with printer := printer, outcome := some o })

def finishIfSpent (w : Watch) : List Written × Watch :=
  let w := { w with exhausted := w.exhausted.filter fun kind ↦ w.phase? kind = some Phase.failed }
  if w.session.mode.channels.all w.isSpent then
    w.finish (if w.exhausted.isEmpty then .ended else .exhausted)
  else ([], w)

def takeNotices (w : Watch) : List Written × Watch :=
  let ((_, notices), session) := w.session.takeNotices
  ((notices.filterMap Notice.line?).map .line,
    { w with
      live := { w.live with session := session }
      exhausted := notices.foldl giveUp w.exhausted })

def takeTurn (w : Watch) : List Written × Watch :=
  let snapshot := w.session.snapshot
  if w.seen < snapshot.count then
    let (shown, printer) := w.printer.update snapshot.value
    (shown.toList.map .turn, { w with printer := printer, seen := snapshot.count })
  else ([], w)

/-- Whether the watch has just seen the turn with which it is to end. -/
def isSatisfied (before after : Watch) : Bool :=
  after.options.once && before.seen < after.seen && after.session.snapshot.value.complete

/-- Looks at what a step has led to. -/
def review (w : Watch) : List Written × Watch :=
  let w := { w with everConnected := w.everConnected || w.session.isConnected }
  let (lines, noticed) := w.takeNotices
  let (shown, printed) := noticed.takeTurn
  let (last, w) :=
    if isSatisfied noticed printed then printed.finish .ended else printed.finishIfSpent
  (lines ++ shown ++ last, w)

/-! ### Steps -/

/-- Takes an event that a transport posts. It is handled later. -/
def post (w : Watch) (e : Event) : Watch := { w with live := w.live.post e }

/-- Handles the first event in the inbox. -/
def next (w : Watch) : List Written × Watch :=
  if w.outcome.isSome then ([], w)
  else
    match w.live.step? with
    | none => ([], w)
    | some (_, live) => { w with live := live }.review

/-- Sends a line that the user has typed, if it is not blank. -/
def type (w : Watch) (line : String) : List Written × Watch :=
  if w.outcome.isSome then ([], w)
  else if Text.isBlankText line then w.review
  else
    match w.session.send line with
    | (.ok (), session) => (w.update session).review
    | (.error e, session) =>
      let (written, w) := (w.update session).review
      (.line e.text :: written, w)

/-- The time until which the session has to be connected. -/
def deadline? (w : Watch) : Option Nat :=
  if w.everConnected || w.options.connectTimeout = 0 then none
  else some (1000 * w.options.connectTimeout)

def advance (w : Watch) (span : Nat) : List Written × Watch :=
  if w.outcome.isSome then ([], w)
  else
    let w := { w with live := w.live.advance span }
    if w.deadline?.any (· ≤ w.session.now) then
      w.finish (.timedOut w.session.mode w.options.connectTimeout)
    else ([], w)

/-- The time until something happens by itself. -/
def nextDue? (w : Watch) : Option Nat :=
  match w.session.nextDue?, w.deadline?.map (· - w.session.now) with
  | some a, some b => some (min a b)
  | a, b => a.or b

end Watch
end AgentReply
