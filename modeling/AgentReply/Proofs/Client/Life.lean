import AgentReply.Client.Any
import AgentReply.Proofs.Client.EventsTask
import AgentReply.Proofs.Client.SocketTask

/-!
# Lives of connections

What is posted of a connection is its life, whichever of the two tasks looks after it and however what
happens to the task is mixed. Clients post lives as well: the work on the network posts nothing, so what a
client posts is what its task posts on some of its ways.
-/

namespace AgentReply

/-! ### The work on the network -/

namespace Fetch

variable (f : Fetch)

@[simp] theorem signals_refuse (charset : Charset) (body : Http.Body) (text : List UInt8) :
    Action.signals (f.refuse charset body text).actions = [] := by
  cases body <;> rfl

@[simp] theorem signals_stream (body : Http.Body) (reader : EventStream.Reader) (octets : List UInt8) :
    Action.signals (f.stream body reader octets).actions = [] := by
  rw [stream]
  dsimp only
  split
  · rfl
  · split <;> rfl

@[simp] theorem signals_follow (place : Url) : Action.signals (f.follow place).actions = [] := by
  unfold follow
  split
  · rfl
  · split <;> rfl

@[simp] theorem signals_finish : Action.signals f.finish.actions = [] := by
  unfold finish
  split
  · rfl
  · rfl
  · split <;> rfl
  · exact f.signals_refuse _ _ _
  · rfl

@[simp] theorem signals_lose : Action.signals f.lose.actions = [] := by
  unfold lose
  split
  · rfl
  · rfl
  · rfl
  · exact f.signals_refuse _ _ _
  · rfl

variable [Idna]

@[simp] theorem signals_respond (h : Http.Head) (rest : List UInt8) :
    Action.signals (f.respond h rest).actions = [] := by
  unfold respond
  split
  · rfl
  · exact f.signals_follow _
  · split
    · exact f.signals_stream _ _ _
    · exact f.signals_refuse _ _ _

@[simp] theorem signals_readHead (s : List UInt8) : Action.signals (f.readHead s).actions = [] := by
  fun_induction readHead f s with
  | case4 s h rest hread hfinal hinterim hshort ih => exact ih
  | case6 s h rest hread hfinal hinterim => exact f.signals_respond h rest
  | _ => rfl

theorem signals_step (s : Stimulus) : Action.signals (f.step s).actions = [] := by
  obtain ⟨url, place, redirects, phase⟩ := f
  cases s with
  | arrived octets => cases phase <;> simp [step]
  | ended => simp [step]
  | lost reason => simp [step]
  | unsent reason => simp [step]
  | _ => cases phase <;> rfl

end Fetch

namespace SocketLine

variable (l : SocketLine)

@[simp] theorem signals_readFrames (incomplete : Option Socket.Fragments) (arrived : Socket.Frame.Arrived)
    (frames : List Socket.Frame) : Action.signals (l.readFrames incomplete arrived frames).actions = [] := by
  induction frames generalizing incomplete with
  | nil =>
    unfold readFrames
    split <;> rfl
  | cons frame frames ih =>
    unfold readFrames
    split
    · rfl
    · rfl
    · exact ih _

@[simp] theorem signals_read (incomplete : Option Socket.Fragments) (s : List UInt8) :
    Action.signals (l.read incomplete s).actions = [] :=
  l.signals_readFrames _ _ _

@[simp] theorem signals_shakeHands (s : List UInt8) : Action.signals (l.shakeHands s).actions = [] := by
  unfold shakeHands
  split
  · rfl
  · rfl
  · split
    · rfl
    · exact l.signals_read _ _

theorem signals_step (s : Stimulus) : Action.signals (l.step s).actions = [] := by
  obtain ⟨url, key, phase⟩ := l
  cases s with
  | arrived octets => cases phase <;> simp [step]
  | _ => cases phase <;> rfl

end SocketLine

/-! ### Clients -/

@[simp] theorem Action.signals_hangUp (isDone : Bool) :
    Action.signals (if isDone then [.hangUp] else []) = [] := by
  cases isDone <;> rfl

namespace Client

/-- What may have been posted when a client is where it is. -/
def Fits (posted : List Signal) : Client → Prop
  | .events c => c.task.phase.Fits posted
  | .socket c => c.task.phase.Fits posted

variable {c : Client} {posted : List Signal}

theorem isLife_of_fits (h : c.Fits posted) : Signal.IsLife posted := by
  cases c with
  | events c => exact EventsTask.isLife_of_fits h
  | socket c => exact SocketTask.isLife_of_fits h

theorem fits_create (kind : ChannelKind) (url : Url) (key : String) : (create kind url key).Fits [] := by
  cases kind <;> exact rfl

variable [Idna]

theorem fits_step (h : c.Fits posted) (takes : Bool) (s : Stimulus) :
    (c.step takes s).2.Fits (posted ++ Action.signals (c.step takes s).1) := by
  cases c with
  | events c =>
    cases hdone : c.isDone with
    | true => simpa [step, EventsClient.step, hdone] using h
    | false =>
      have hrun := EventsTask.fits_run (t := c.task) h
      simpa [step, EventsClient.step, hdone, Fetch.signals_step, Fits] using hrun _
  | socket c =>
    cases hdone : c.isDone with
    | true => simpa [step, SocketClient.step, hdone] using h
    | false =>
      have hrun := SocketTask.fits_run (t := c.task) h
      simpa [step, SocketClient.step, hdone, SocketLine.signals_step, Fits] using hrun _

/-- Whatever happens to a client, and whether its signals are taken each time or not, it posts a life. -/
theorem isLife_run (kind : ChannelKind) (url : Url) (key : String) (happening : List (Bool × Stimulus)) :
    Signal.IsLife (Action.signals
      (stepAll (fun c (takes, s) ↦ c.step takes s) (create kind url key) happening).1) := by
  have hrun := @stepAll_preserves _ _ Unit (fun (c : Client) (takes, s) ↦ c.step takes s) (fun _ ↦ none)
    (fun c posted _ ↦ c.Fits posted) _ happening _ [] (fits_create kind url key)
    fun m _ _ _ _ h ↦ fits_step h m.1 m.2
  exact isLife_of_fits hrun

end Client

/-! ### Connections -/

/-- Whatever is reported to the task of an event stream and to the task of a socket, whatever they are handed
to be sent, and wherever they are cancelled or lose their inbox, each of them posts the life of a connection.
Of the texts that are reported it posts the first ones, in order and each once. If nothing interferes it posts
all that is reported, after enough rounds. -/
theorem run_posts_life (events : List EventsTask.Move) (socket : List SocketTask.Move) :
    (Signal.IsLife (Action.signals (EventsTask.run {} events).1) ∧
      (Action.signals (EventsTask.run {} events).1).filterMap Signal.text? <+:
        EventsTask.texts (EventsTask.reportsOf events) ∧
      ((∀ m ∈ events, m.interferes = false) → ∀ n, (EventsTask.reportsOf events).length < n →
        Action.signals (EventsTask.run {} (events ++ rounds [.poll, .taken] n)).1 =
          EventsTask.life (EventsTask.reportsOf events))) ∧
    (Signal.IsLife (Action.signals (SocketTask.run {} socket).1) ∧
      (Action.signals (SocketTask.run {} socket).1).filterMap Signal.text? <+:
        SocketTask.texts (SocketTask.reportsOf socket) ∧
      ((∀ m ∈ socket, m.interferes = false) → ∀ n, (SocketTask.reportsOf socket).length < n →
        Action.signals (SocketTask.run {} (socket ++ rounds [.written, .poll, .taken] n)).1 =
          SocketTask.life (SocketTask.reportsOf socket))) :=
  ⟨EventsTask.run_posts events, SocketTask.run_posts socket⟩

theorem run_posts_life_message :
    let events : List EventsTask.Move := [.report (.answered 200), .poll, .report (.item ⟨"ping", "a"⟩),
      .report (.item ⟨"message", " "⟩), .report (.item ⟨"message", "b"⟩), .taken, .poll, .report .ended]
    let socket : List SocketTask.Move := [.report .connected, .poll, .hand "a", .taken, .write,
      .report (.message (.binary [0xFF])), .report (.message (.ping [])), .report (.message (.binary [0x62])),
      .report (.message .close)]
    Action.signals (EventsTask.run {} (events ++ rounds [.poll, .taken] 6)).1 =
        [.opened, .frame "b", .closed] ∧
      Action.signals (SocketTask.run {} (socket ++ rounds [.written, .poll, .taken] 6)).1 =
        [.opened, .frame "b", .closed] := by
  intro events socket
  obtain ⟨⟨-, -, hevents⟩, -, -, hsocket⟩ := run_posts_life events socket
  constructor
  · exact (hevents (by decide) 6 (by decide)).trans (by decide)
  · exact (hsocket (by decide) 6 (by decide)).trans (by decide)

end AgentReply
