import AgentReply.Proofs.Session.Turns

/-!
# The turn that a completion ends

The end of a turn comes with a last piece of text or without one, and it may name a turn. With text it is
treated like any text: if it names another turn than the current one, this other turn begins, and it is the
one that ends. Without text the name is not looked at.
-/

namespace AgentReply

namespace Transcript

variable {t : Transcript} {u text : String}

/-- With text, the turn that is named begins and ends at once. -/
theorem turn_add_complete_some (v : Vocabulary) (h : t.id ≠ .sent u) (text : String) :
    (t.add (.complete (some u) (some text))).turn v = ⟨.sent u, text, Reply.parse v text, true⟩ := by
  have hbegins : t.begins (.complete (some u) (some text)) = true := by
    simp [begins, Message.text?, Message.turn?, h]
  have hraw := raw_add t (m := .complete (some u) (some text)) rfl
  have hcomplete := isComplete_add t (.complete (some u) (some text))
  rw [hbegins, if_pos rfl, String.empty_append] at hraw
  rw [Message.isComplete, Bool.or_true] at hcomplete
  rw [turn, hraw, hcomplete, add_of_begins hbegins]
  rfl

/-- Without text, the current turn ends, whatever turn is named. -/
theorem turn_add_complete_none (v : Vocabulary) (t : Transcript) (named : Option String) :
    (t.add (.complete named none)).turn v = (t.turn v).markComplete := by
  have hbegins : t.begins (.complete named none) = false := begins_of_text?_eq_none rfl
  have hraw := raw_add_of_text?_eq_none (t := t) (m := .complete named none) rfl
  have hcomplete := isComplete_add t (.complete named none)
  rw [Message.isComplete, Bool.or_true] at hcomplete
  rw [turn, hraw, hcomplete, add_of_not_begins hbegins]
  rfl

end Transcript

namespace Session

/-- What a session shows when the end of another turn comes while a turn goes on. If it comes with text,
the other turn is shown with this text and complete. If it comes without text, the current turn is shown
as complete, although it is not the one that has ended. -/
theorem run_ends_turn (mode : Mode) (o : Options) (actions : List Action) (e : Event) (named : String)
    (last : Option String) :
    let s := (ofMode mode o).run actions
    let shown := (s.handle e).snapshot.value
    s.turnStarted = true → s.assembly.turn.complete = false → s.assembly.turn.id ≠ .sent named →
    s.received (.handle e) = some (.complete (some named) last) →
      (s.handle e).snapshot = s.snapshot.publish (match last with
        | some text => ⟨.sent named, text, Reply.parse o.vocabulary text, true⟩
        | none => s.assembly.turn.markComplete) ∧
      (shown.id = s.assembly.turn.id ∧ shown.complete = true ↔ last = none) := by
  intro s shown hstarted hgoing hother hreceived
  have hfollows : s.Follows (Transcript.addAll {} ((ofMode mode o).messages actions)) :=
    (follows_ofMode mode o).run actions
  generalize Transcript.addAll {} ((ofMode mode o).messages actions) = t at hfollows
  have hvocabulary : s.vocabulary = o.vocabulary := vocabulary_run (ofMode mode o) actions
  have hdispatch : s.handle e = s.dispatch (.complete (some named) last) :=
    perform_of_received_eq_some hreceived
  have hturn : s.assembly.turn = t.turn o.vocabulary := hvocabulary ▸ hfollows.turn_eq
  have hid : t.id ≠ .sent named := by
    rw [hturn] at hother
    exact hother
  have hsnapshot : (s.handle e).snapshot =
      s.snapshot.publish ((t.add (.complete (some named) last)).turn o.vocabulary) := by
    rw [hdispatch, hfollows.snapshot_dispatch, hvocabulary]
    -- The turn on show was going on and the next one is complete, so the value does change.
    apply Watched.update_of_ne
    intro hsame
    have hcomplete := congrArg Turn.complete hsame
    rw [hfollows.shown_eq, hgoing] at hcomplete
    have hends := Transcript.isComplete_add t (.complete (some named) last)
    rw [Message.isComplete, Bool.or_true] at hends
    cases hcomplete.trans hends
  have hshown : shown = (t.add (.complete (some named) last)).turn o.vocabulary :=
    congrArg Watched.value hsnapshot
  cases last with
  | some text =>
    rw [Transcript.turn_add_complete_some _ hid] at hsnapshot hshown
    refine ⟨hsnapshot, ?_⟩
    rw [hshown]
    simp [Ne.symm hother]
  | none =>
    rw [Transcript.turn_add_complete_none, ← hturn] at hsnapshot hshown
    refine ⟨hsnapshot, ?_⟩
    rw [hshown]
    simp [Turn.markComplete]

/-- A turn goes on that is named `a`. -/
def underWay : List Action :=
  [.connect, .handle ⟨.events, 1, .opened⟩,
    .handle ⟨.events, 1, .frame "\x7b\"type\": \"delta\", \"id\": \"a\", \"content\": \"one\"\x7d"⟩]

/-- The end of the turn named `b`, with further fields. -/
def endOfOther (fields : String) : Event :=
  ⟨.events, 1, .frame ("\x7b\"type\": \"delta\", \"id\": \"b\", \"complete\": true" ++ fields ++ "\x7d")⟩

theorem run_ends_turn_other :
    let s := (ofMode .events {}).run underWay
    (s.handle (endOfOther ", \"content\": \"two\"")).snapshot =
        s.snapshot.publish ⟨.sent "b", "two", Reply.parse .standard "two", true⟩ ∧
      (s.handle (endOfOther "")).snapshot = s.snapshot.publish s.assembly.turn.markComplete := by
  intro s
  constructor
  · obtain ⟨hshown, -⟩ := run_ends_turn .events {} underWay (endOfOther ", \"content\": \"two\"") "b"
      (some "two") (by decide +kernel) (by decide +kernel) (by decide +kernel) (by decide +kernel)
    exact hshown
  · obtain ⟨hshown, -⟩ := run_ends_turn .events {} underWay (endOfOther "") "b" none
      (by decide +kernel) (by decide +kernel) (by decide +kernel) (by decide +kernel)
    exact hshown

/-- A turn is shown as complete when the end of another one comes without text, or with an empty one. -/
theorem run_ends_unnamed_turn :
    let s := (ofMode .events {}).run underWay
    s.turnStarted = true ∧ s.snapshot.value.id = .sent "a" ∧ s.snapshot.value.complete = false ∧
      ∀ e ∈ [endOfOther "", endOfOther ", \"content\": \"\""],
        s.received (.handle e) = some (.complete (some "b") none) ∧
          (s.handle e).snapshot.value.id = .sent "a" ∧ (s.handle e).snapshot.value.complete = true := by
  decide +kernel

end Session
end AgentReply
