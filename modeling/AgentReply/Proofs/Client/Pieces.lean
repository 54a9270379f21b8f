import AgentReply.Client.Fetch
import AgentReply.Client.SocketLine
import AgentReply.Proofs.Channel.EventStream
import AgentReply.Proofs.Http.Body
import AgentReply.Proofs.Http.Head
import AgentReply.Proofs.Socket.Frames

/-!
# Connections in pieces

What is reported of a connection does not depend on how the network cuts what arrives: a response and a
stream, and a handshake and the frames behind it, may be cut anywhere.
-/

namespace AgentReply

/-- If two pieces make what both in one do, so do many. -/
theorem foldl_pieces {τ : Type} (take : List UInt8 → τ) (more : τ → List UInt8 → τ)
    (h : ∀ s t, take (s ++ t) = more (take s) t) (s : List UInt8) (pieces : List (List UInt8)) :
    pieces.foldl more (take s) = take (s ++ pieces.flatten) := by
  induction pieces generalizing s with
  | nil => rw [List.foldl_nil, List.flatten_nil, List.append_nil]
  | cons piece pieces ih => rw [List.foldl_cons, ← h, ih, List.flatten_cons, List.append_assoc]

namespace Fetch

/-- One turn, and then another one with what the first one has left. -/
def Turn.andThen (turn : Turn) (next : Fetch → Turn) : Turn where
  actions := turn.actions ++ (next turn.fetch).actions
  reports := turn.reports ++ (next turn.fetch).reports
  fetch := (next turn.fetch).fetch

@[simp] theorem Turn.after_andThen (turn : Turn) (r : EventsTask.Report) (next : Fetch → Turn) :
    (turn.after r).andThen next = (turn.andThen next).after r := rfl

/-- A fetch with a reader has one that is sound. -/
def IsSound (f : Fetch) : Prop :=
  match f.phase with
  | .stream _ reader => reader.IsSound
  | _ => True

/-! What a fetch does next does not depend on the phase that it leaves. -/

@[simp] theorem refuse_withPhase (f : Fetch) (phase : Phase) (charset : Charset) (body : Http.Body)
    (text : List UInt8) :
    ({ f with phase := phase } : Fetch).refuse charset body text = f.refuse charset body text := by
  cases body <;> rfl

@[simp] theorem stream_withPhase (f : Fetch) (phase : Phase) (body : Http.Body) (reader : EventStream.Reader)
    (octets : List UInt8) : ({ f with phase := phase } : Fetch).stream body reader octets =
      f.stream body reader octets := by
  unfold stream
  rfl

variable {body : Http.Body} {reader : EventStream.Reader}

theorem refuse_of_not_isOver (h : body.isOver = false) (f : Fetch) (charset : Charset) (text : List UInt8) :
    f.refuse charset body text = f.tell [] (.refusal charset body text) := by
  cases body with
  | finished => cases h
  | broken => cases h
  | _ => rfl

theorem refuse_of_isOver (h : body.isOver = true) (f : Fetch) (charset : Charset) (text : List UInt8) :
    ∃ reports, f.refuse charset body text = f.tell reports .over := by
  cases body with
  | finished => exact ⟨_, rfl⟩
  | broken => exact ⟨_, rfl⟩
  | _ => cases h

/-- What is reported of a body that has ended. -/
def lastReport (body : Http.Body) (reader : EventStream.Reader) : EventsTask.Report :=
  if body = .finished then ending reader else brokenBody

theorem stream_eq (f : Fetch) (body : Http.Body) (reader : EventStream.Reader) (s : List UInt8) :
    f.stream body reader s =
      match reader.feed? (body.feed s).1 with
      | none => f.tell [.crashed] .over
      | some (items, reader) =>
        if (body.feed s).2.isOver then f.tell (items.map .item ++ [lastReport (body.feed s).2 reader]) .over
        else f.tell (items.map .item) (.stream (body.feed s).2 reader) := by
  rw [stream]
  dsimp only
  cases reader.feed? (body.feed s).1 with
  | none => rfl
  | some taken =>
    dsimp only
    cases (body.feed s).2 <;> rfl

theorem isSound_refuse (f : Fetch) (charset : Charset) (body : Http.Body) (text : List UInt8) :
    (f.refuse charset body text).fetch.IsSound := by
  cases body <;> trivial

theorem isSound_stream (hreader : reader.IsSound) (f : Fetch) (body : Http.Body) (s : List UInt8) :
    (f.stream body reader s).fetch.IsSound := by
  rw [stream_eq]
  split
  · trivial
  · next items next hfeed =>
    split
    · trivial
    · exact (hreader.feed? hfeed).1

variable [Idna] {f : Fetch}

/-- What arrives after the end is passed over. -/
@[simp] theorem tell_over_andThen (f : Fetch) (reports : List EventsTask.Report) (t : List UInt8) :
    (f.tell reports .over).andThen (·.step (.arrived t)) = f.tell reports .over := by
  simp [tell, Turn.andThen, step]

theorem refuse_append (f : Fetch) (charset : Charset) (body : Http.Body) (text s t : List UInt8) :
    f.refuse charset (body.feed (s ++ t)).2 (text ++ (body.feed (s ++ t)).1) =
      (f.refuse charset (body.feed s).2 (text ++ (body.feed s).1)).andThen (·.step (.arrived t)) := by
  rw [Http.Body.feed_append]
  dsimp only
  rw [← List.append_assoc]
  cases hover : (body.feed s).2.isOver with
  | true =>
    obtain ⟨reports, hrefuse⟩ := refuse_of_isOver hover f charset (text ++ (body.feed s).1)
    rw [Http.Body.feed_of_isOver hover, List.append_nil, hrefuse, tell_over_andThen]
  | false =>
    rw [refuse_of_not_isOver hover]
    simp [tell, Turn.andThen, step]

theorem stream_append (f : Fetch) (hreader : reader.IsSound) (body : Http.Body) (s t : List UInt8) :
    f.stream body reader (s ++ t) = (f.stream body reader s).andThen (·.step (.arrived t)) := by
  rw [stream_eq, stream_eq, Http.Body.feed_append]
  dsimp only
  rw [EventStream.Reader.feed?_append]
  cases hfirst : reader.feed? (body.feed s).1 with
  | none => exact (tell_over_andThen f [.crashed] t).symm
  | some taken =>
    obtain ⟨items, next⟩ := taken
    dsimp only [Option.bind_some]
    cases hover : (body.feed s).2.isOver with
    | true =>
      rw [Http.Body.feed_of_isOver hover, EventStream.Reader.feed?_nil hfirst]
      simp [hover]
    | false =>
      let later := f.stream (body.feed s).2 next t
      have hlater : (f.tell (items.map .item) (.stream (body.feed s).2 next)).andThen (·.step (.arrived t)) =
          { later with reports := items.map .item ++ later.reports } := by
        simp [tell, Turn.andThen, step, later]
      rw [if_neg Bool.false_ne_true, hlater, show later = _ from stream_eq f _ next t]
      cases hsecond : next.feed? ((body.feed s).2.feed t).1 with
      | none =>
        rw [(hreader.feed? hfirst).2 (EventStream.Reader.started_of_feed?_eq_none hsecond)]
        rfl
      | some taken' =>
        obtain ⟨more, last⟩ := taken'
        dsimp only [Option.map_some]
        split <;> simp [tell]

theorem follow_andThen (f : Fetch) (place : Url) (t : List UInt8) :
    (f.follow place).andThen (·.step (.arrived t)) = f.follow place := by
  unfold follow
  split
  · exact tell_over_andThen f _ t
  · split
    · exact tell_over_andThen f _ t
    · rfl

theorem respond_append (f : Fetch) (h : Http.Head) (rest t : List UInt8) :
    f.respond h (rest ++ t) = (f.respond h rest).andThen (·.step (.arrived t)) := by
  unfold respond
  split
  · exact (tell_over_andThen f _ t).symm
  · exact (follow_andThen f _ t).symm
  · next body hbody hplace =>
    split
    · rw [stream_append f EventStream.Reader.isSound_start, Turn.after_andThen]
    · have hrefuse := refuse_append f h.charset body [] rest t
      rw [List.nil_append, List.nil_append] at hrefuse
      dsimp only
      rw [hrefuse, Turn.after_andThen]

theorem respond_withPhase (f : Fetch) (phase : Phase) (h : Http.Head) (rest : List UInt8) :
    ({ f with phase := phase } : Fetch).respond h rest = f.respond h rest := by
  unfold respond
  simp only [stream_withPhase, refuse_withPhase]
  rfl

theorem readHead_withPhase (f : Fetch) (phase : Phase) (s : List UInt8) :
    ({ f with phase := phase } : Fetch).readHead s = f.readHead s := by
  fun_induction readHead f s with
  | case1 s e hread => rw [readHead, hread]; rfl
  | case2 s hread => rw [readHead, hread]; rfl
  | case3 s h rest hread hstatus =>
    rw [readHead, hread]
    dsimp only
    rw [if_pos hstatus]
    rfl
  | case4 s h rest hread hstatus hinterim hshort ih =>
    rw [readHead, hread]
    dsimp only
    rw [if_neg hstatus, if_pos hinterim, if_pos hshort, ih]
  | case5 s h rest hread hstatus hinterim hlong =>
    rw [readHead, hread]
    dsimp only
    rw [if_neg hstatus, if_pos hinterim, if_neg hlong]
    rfl
  | case6 s h rest hread hstatus hfinal =>
    rw [readHead, hread]
    dsimp only
    rw [if_neg hstatus, if_neg hfinal, respond_withPhase]

theorem readHead_append (f : Fetch) (s t : List UInt8) :
    f.readHead (s ++ t) = (f.readHead s).andThen (·.step (.arrived t)) := by
  fun_induction readHead f s with
  | case1 s e hread =>
    rw [readHead, Http.Head.read_append_of_error hread]
    exact (tell_over_andThen f _ t).symm
  | case2 s hread =>
    simp only [tell, Turn.andThen, step, readHead_withPhase]
    rfl
  | case3 s h rest hread hstatus =>
    rw [readHead, Http.Head.read_append hread]
    dsimp only
    rw [if_pos hstatus]
    exact (tell_over_andThen f _ t).symm
  | case4 s h rest hread hstatus hinterim hshort ih =>
    rw [readHead, Http.Head.read_append hread]
    dsimp only
    rw [if_neg hstatus, if_pos hinterim, if_pos (by simpa using hshort), ih]
  | case5 s h rest hread hstatus hinterim hlong =>
    rw [readHead, Http.Head.read_append hread]
    dsimp only
    rw [if_neg hstatus, if_pos hinterim, if_neg (by simpa using hlong)]
    exact (tell_over_andThen f _ t).symm
  | case6 s h rest hread hstatus hfinal =>
    rw [readHead, Http.Head.read_append hread]
    dsimp only
    rw [if_neg hstatus, if_neg hfinal, respond_append]

theorem step_arrived_append (hf : f.IsSound) (s t : List UInt8) :
    f.step (.arrived (s ++ t)) = (f.step (.arrived s)).andThen (·.step (.arrived t)) := by
  obtain ⟨url, place, redirects, phase⟩ := f
  cases phase with
  | head held =>
    have hread := readHead_append ⟨url, place, redirects, .head held⟩ (held ++ s) t
    rw [List.append_assoc] at hread
    exact hread
  | stream body reader => exact stream_append _ hf body s t
  | refusal charset body text => exact refuse_append _ charset body text s t
  | _ => rfl

theorem isSound_respond (f : Fetch) (h : Http.Head) (rest : List UInt8) :
    (f.respond h rest).fetch.IsSound := by
  unfold respond
  split
  · trivial
  · unfold follow
    split
    · trivial
    · split <;> trivial
  · split
    · exact isSound_stream EventStream.Reader.isSound_start f _ rest
    · exact isSound_refuse f _ _ _

theorem isSound_readHead (f : Fetch) (s : List UInt8) : (f.readHead s).fetch.IsSound := by
  fun_induction readHead f s with
  | case4 s h rest hread hstatus hinterim hshort ih => exact ih
  | case6 s h rest hread hstatus hfinal => exact isSound_respond f h rest
  | _ => trivial

theorem isSound_step (hf : f.IsSound) (s : Stimulus) : (f.step s).fetch.IsSound := by
  obtain ⟨url, place, redirects, phase⟩ := f
  cases phase with
  | stream body reader =>
    cases s with
    | arrived octets => exact isSound_stream hf _ body octets
    | ended =>
      simp only [step, finish]
      split <;> trivial
    | _ => trivial
  | head held =>
    cases s with
    | arrived octets => exact isSound_readHead _ _
    | _ => trivial
  | refusal charset body text =>
    cases s with
    | connected => trivial
    | unreachable reason => trivial
    | message text => trivial
    | cancelled => trivial
    | _ => exact isSound_refuse _ _ _ _
  | _ => cases s <;> trivial

/-- Whatever has happened to a fetch before, what it asks for and reports of some octets does not depend on
the pieces in which they arrive. -/
theorem foldl_arrived (url : Url) (before : List Stimulus) (s : List UInt8) (pieces : List (List UInt8)) :
    let f := before.foldl (fun f s ↦ (f.step s).fetch) ({ url := url } : Fetch)
    pieces.foldl (fun turn piece ↦ turn.andThen (·.step (.arrived piece))) (f.step (.arrived s)) =
      f.step (.arrived (s ++ pieces.flatten)) := by
  intro f
  have hf : f.IsSound := List.foldlRecOn before _ trivial fun _ hf s _ ↦ isSound_step hf s
  exact foldl_pieces (f.step <| .arrived ·) _ (step_arrived_append hf) s pieces

end Fetch

namespace SocketLine

/-- One turn, and then another one with what the first one has left. -/
def Turn.andThen (turn : Turn) (next : SocketLine → Turn) : Turn where
  actions := turn.actions ++ (next turn.line).actions
  reports := turn.reports ++ (next turn.line).reports
  line := (next turn.line).line

variable {arrived : Socket.Frame.Arrived}

/-- What arrives after the end is passed over. -/
@[simp] theorem tell_over_andThen (l : SocketLine) (reports : List SocketTask.Report) (t : List UInt8) :
    (l.tell reports .over).andThen (·.step (.arrived t)) = l.tell reports .over := by
  simp [tell, Turn.andThen, step]

/-- If nothing was wrong up to the last frame, the rest is read with what follows. -/
theorem readFrames_append (l : SocketLine) {more : List Socket.Frame} {whole : Socket.Frame.Arrived}
    {t : List UInt8} (hmore : ∀ incomplete, l.readFrames incomplete whole more =
      (l.readFrames incomplete arrived []).andThen (·.step (.arrived t)))
    (incomplete : Option Socket.Fragments) (frames : List Socket.Frame) :
    l.readFrames incomplete whole (frames ++ more) =
      (l.readFrames incomplete arrived frames).andThen (·.step (.arrived t)) := by
  induction frames generalizing incomplete with
  | nil => exact hmore incomplete
  | cons frame frames ih =>
    rw [List.cons_append, readFrames, readFrames]
    split
    · exact (tell_over_andThen l _ t).symm
    · exact (tell_over_andThen l _ t).symm
    · simp only [ih]
      simp [Turn.andThen]

/-! Neither the phase that a line leaves nor the frames that were read before make a difference. -/

theorem readFrames_withPhase (l : SocketLine) (phase : Phase) (incomplete : Option Socket.Fragments)
    (frames : List Socket.Frame) :
    ({ l with phase := phase } : SocketLine).readFrames incomplete arrived frames =
      l.readFrames incomplete arrived frames := by
  induction frames generalizing incomplete with
  | nil => rfl
  | cons frame frames ih => simp only [readFrames, ih]; rfl

theorem readFrames_withFrames (l : SocketLine) (all : List Socket.Frame) (incomplete : Option Socket.Fragments)
    (frames : List Socket.Frame) : l.readFrames incomplete { arrived with frames := all } frames =
      l.readFrames incomplete arrived frames := by
  induction frames generalizing incomplete with
  | nil => rfl
  | cons frame frames ih => simp only [readFrames, ih]

theorem read_append (l : SocketLine) (incomplete : Option Socket.Fragments) (s t : List UInt8) :
    l.read incomplete (s ++ t) = (l.read incomplete s).andThen (·.step (.arrived t)) := by
  unfold read
  dsimp only
  cases herror : (Socket.Frame.readAll s).error with
  | some e =>
    obtain ⟨hframes, herror'⟩ := Socket.Frame.readAll_append_of_error herror t
    have hend : ∀ incomplete, l.readFrames incomplete (Socket.Frame.readAll (s ++ t)) [] =
        (l.readFrames incomplete (Socket.Frame.readAll s) []).andThen (·.step (.arrived t)) := by
      intro incomplete
      simp only [readFrames, herror, herror', tell_over_andThen]
    have hall := l.readFrames_append hend incomplete (Socket.Frame.readAll s).frames
    rw [hframes]
    rwa [List.append_nil] at hall
  | none =>
    rw [Socket.Frame.readAll_append herror]
    refine l.readFrames_append (fun incomplete ↦ ?_) incomplete _
    rw [readFrames_withFrames, readFrames, herror]
    simp [Turn.andThen, tell, step, read, readFrames_withPhase]

theorem shakeHands_withPhase (l : SocketLine) (phase : Phase) (s : List UInt8) :
    ({ l with phase := phase } : SocketLine).shakeHands s = l.shakeHands s := by
  unfold shakeHands read
  simp only [readFrames_withPhase]
  rfl

theorem shakeHands_append (l : SocketLine) (s t : List UInt8) :
    l.shakeHands (s ++ t) = (l.shakeHands s).andThen (·.step (.arrived t)) := by
  rw [shakeHands.eq_def l s]
  split
  · next e hread =>
    rw [shakeHands, Http.Head.read_append_of_error hread]
    exact (tell_over_andThen l _ t).symm
  · next hread =>
    simp [Turn.andThen, tell, step, shakeHands_withPhase]
  · next h rest hread =>
    rw [shakeHands, Http.Head.read_append hread]
    dsimp only
    split
    · exact (tell_over_andThen l _ t).symm
    · rw [read_append]
      rfl

theorem step_arrived_append (l : SocketLine) (s t : List UInt8) :
    l.step (.arrived (s ++ t)) = (l.step (.arrived s)).andThen (·.step (.arrived t)) := by
  obtain ⟨url, key, phase⟩ := l
  cases phase with
  | handshake held =>
    have hread := shakeHands_append ⟨url, key, .handshake held⟩ (held ++ s) t
    rw [List.append_assoc] at hread
    exact hread
  | opened held incomplete =>
    have hread := read_append ⟨url, key, .opened held incomplete⟩ incomplete (held ++ s) t
    rw [List.append_assoc] at hread
    exact hread
  | _ => rfl

/-- What a line reports of some octets does not depend on the pieces in which they arrive. -/
theorem foldl_arrived (l : SocketLine) (s : List UInt8) (pieces : List (List UInt8)) :
    pieces.foldl (fun turn piece ↦ turn.andThen (·.step (.arrived piece))) (l.step (.arrived s)) =
      l.step (.arrived (s ++ pieces.flatten)) :=
  foldl_pieces (l.step <| .arrived ·) _ l.step_arrived_append s pieces

end SocketLine

end AgentReply
