import AgentReply.Proofs.Session.Turns
import AgentReply.Watch.Basic
import Mathlib.Data.List.Destutter

/-!
# What a watch prints

The printer of a watch does not see turns begin. It is shown the current turn whenever this has changed,
and knows of the past no more than the id of the turn that it printed last. What it prints is therefore
decided by the transcript that the session follows: the complete turns one after the other, each with the
contents with which the next one finds it, and the one that the session ends in. But a turn that has the id
of the one printed last is taken for the same.
-/

namespace AgentReply

/-! ### The turns of a transcript -/

namespace Transcript

variable {v : Vocabulary} {t : Transcript} {m : Message} {ms : List Message} {ended : Bool}

/-- The turns from the current one on, each with its final contents. -/
def turns (v : Vocabulary) (t : Transcript) : List Message → List Turn
  | [] => if t.begun then [t.turn v] else []
  | m :: ms => (if t.begun && t.begins m then [t.turn v] else []) ++ (t.add m).turns v ms

@[simp] theorem id_turn (v : Vocabulary) (t : Transcript) : (t.turn v).id = t.id := rfl

@[simp] theorem raw_turn (v : Vocabulary) (t : Transcript) : (t.turn v).raw = t.raw := rfl

@[simp] theorem complete_turn (v : Vocabulary) (t : Transcript) :
    (t.turn v).complete = t.isComplete := rfl

/-- Before the first turn begins there is no text, and the id is one that no turn is given. -/
structure IsSound (t : Transcript) : Prop where
  made_pos : 1 ≤ t.made
  id_ne : t.begun = true → t.id ≠ .made 1
  fresh : t.begun = false → t.id = .made 1 ∧ t.raw = ""

theorem begins_of_not_begun (h : t.begun = false) : t.begins m = m.text?.isSome := by
  rw [begins, h, Bool.not_false, Bool.true_or, Bool.true_or, Bool.and_true]

theorem begun_add (h : t.begins m = false) : (t.add m).begun = t.begun := by
  rw [add_of_not_begins h]

theorem not_begun_of_add (h : (t.add m).begun = false) : t.begun = false := by
  cases hb : t.begins m with
  | true =>
    rw [add_of_begins hb] at h
    cases h
  | false => rwa [begun_add hb] at h

theorem id_add (h : t.begins m = false) : (t.add m).id = t.id := by
  rw [add_of_not_begins h]

theorem IsSound.add (h : t.IsSound) (m : Message) : (t.add m).IsSound := by
  constructor
  · exact Nat.le_trans h.made_pos (made_le_add t m)
  · intro hbegun
    cases hb : t.begins m with
    | true =>
      rw [add_of_begins hb, idFor]
      cases m.turn? with
      | some id => simp
      | none =>
        -- Ids that are made count up from `made`, which is one at least.
        have hpos := h.made_pos
        simp only [Option.elim_none, ne_eq, TurnId.made.injEq]
        omega
    | false =>
      rw [id_add hb]
      apply h.id_ne
      rwa [begun_add hb] at hbegun
  · intro hbegun
    have hfresh := not_begun_of_add hbegun
    obtain ⟨hid, hraw⟩ := h.fresh hfresh
    cases hb : t.begins m with
    | true =>
      rw [add_of_begins hb] at hbegun
      cases hbegun
    | false =>
      rw [id_add hb]
      rw [begins_of_not_begun hfresh, Option.isSome_eq_false_iff, Option.isNone_iff_eq_none] at hb
      exact ⟨hid, (raw_add_of_text?_eq_none hb).trans hraw⟩

theorem isSound_new : IsSound {} := by
  constructor
  · exact Nat.le_refl 1
  · rintro ⟨⟩
  · intro _
    exact ⟨rfl, rfl⟩

theorem id_ne_of_mem_turns (h : t.IsSound) {turn : Turn} (hturn : turn ∈ t.turns v ms) :
    turn.id ≠ .made 1 := by
  induction ms generalizing t with
  | nil =>
    rw [turns] at hturn
    split at hturn
    · next hbegun =>
      rw [List.mem_singleton.1 hturn]
      exact h.id_ne hbegun
    · cases hturn
  | cons m ms ih =>
    rw [turns, List.mem_append] at hturn
    rcases hturn with hturn | hturn
    · split at hturn
      · next hends =>
        rw [List.mem_singleton.1 hturn]
        exact h.id_ne (Bool.and_eq_true_iff.1 hends).1
      · cases hturn
    · exact ih (h.add m) hturn

theorem turns_ne_nil (h : t.begun = true) : t.turns v ms ≠ [] := by
  induction ms generalizing t with
  | nil =>
    rw [turns, if_pos h]
    exact List.cons_ne_nil _ _
  | cons m ms ih =>
    have hnext : (t.add m).begun = true := by
      cases hb : t.begins m with
      | true => rw [add_of_begins hb]
      | false => rw [begun_add hb, h]
    rw [turns]
    exact List.append_ne_nil_of_right_ne_nil _ (ih hnext)

end Transcript

namespace Watch

variable {v : Vocabulary} {t : Transcript} {m : Message} {ms : List Message} {ended : Bool}
  {last : Option TurnId}

/-- The turns that are to be printed: those that are complete and, once the session is over, the current
one, if it has received text. -/
def due (ended : Bool) (turns : List Turn) : List Turn :=
  turns.filter Turn.complete ++
    if ended then (turns.getLast?.filter fun t ↦ !t.complete && !t.raw.isEmpty).toList else []

theorem due_cons (turn : Turn) {turns : List Turn} (h : turns ≠ []) :
    due ended (turn :: turns) = (if turn.complete then [turn] else []) ++ due ended turns := by
  obtain ⟨next, rest, rfl⟩ := List.exists_cons_of_ne_nil h
  rw [due, due, List.filter_cons, List.getLast?_cons_cons]
  split <;> rfl

theorem mem_of_mem_due {turn : Turn} {turns : List Turn} (h : turn ∈ due ended turns) : turn ∈ turns := by
  rw [due, List.mem_append] at h
  rcases h with h | h
  · exact List.mem_of_mem_filter h
  · split at h
    · rw [Option.mem_toList, Option.filter_eq_some_iff] at h
      exact List.mem_of_getLast? h.1
    · cases h

theorem exists_due_of_isComplete (hbegun : t.begun = true) (hcomplete : t.isComplete = true) :
    ∃ rest, due ended (t.turns v ms) = t.turn v :: rest := by
  induction ms generalizing t with
  | nil =>
    refine ⟨[], ?_⟩
    simp [Transcript.turns, hbegun, due, hcomplete]
  | cons m ms ih =>
    rw [Transcript.turns, hbegun, Bool.true_and]
    cases hb : t.begins m with
    | true =>
      have hnext : (t.add m).turns v ms ≠ [] := by
        apply Transcript.turns_ne_nil
        rw [Transcript.add_of_begins hb]
      refine ⟨due ended ((t.add m).turns v ms), ?_⟩
      rw [if_pos rfl, List.singleton_append, due_cons _ hnext, Transcript.complete_turn, if_pos hcomplete,
        List.singleton_append]
    | false =>
      -- A complete turn only goes on to another one; a message that does not begin one is ignored.
      have hignores : t.ignores m = true := by
        rw [Transcript.begins, hcomplete, Bool.or_true, Bool.true_or, Bool.and_true,
          Option.isSome_eq_false_iff] at hb
        rw [Transcript.ignores, hb, hcomplete, Bool.or_true, Bool.and_true]
      have hturn := Transcript.turn_add_of_ignores v hignores
      rw [if_neg (by simp), List.nil_append, ← hturn]
      apply ih
      · rw [Transcript.begun_add hb, hbegun]
      · exact (congrArg Turn.complete hturn).trans hcomplete

/-! ### Turns with the same id -/

/-- The turns that a printer does not skip, if the turn that it has printed last has a certain id. -/
def unprinted (last : Option TurnId) : List Turn → List Turn
  | [] => []
  | t :: turns => if last = some t.id then unprinted last turns else t :: unprinted (some t.id) turns

theorem destutter'_eq_unprinted (t : Turn) (turns : List Turn) :
    turns.destutter' (fun a b ↦ a.id ≠ b.id) t = t :: unprinted (some t.id) turns := by
  induction turns generalizing t with
  | nil => rfl
  | cons next turns ih =>
    rw [unprinted]
    split
    · next heq =>
      rw [List.destutter'_cons_neg _ (by simpa using heq), ih]
    · next hne =>
      rw [List.destutter'_cons_pos _ (by simpa using hne), ih]

theorem destutter_eq_unprinted (turns : List Turn) :
    turns.destutter (fun a b ↦ a.id ≠ b.id) = unprinted none turns := by
  cases turns with
  | nil => rfl
  | cons t turns =>
    rw [List.destutter_cons', destutter'_eq_unprinted, unprinted, if_neg (by simp)]

theorem unprinted_congr {last' : Option TurnId} {turns : List Turn}
    (h : ∀ turn ∈ turns, last ≠ some turn.id) (h' : ∀ turn ∈ turns, last' ≠ some turn.id) :
    unprinted last turns = unprinted last' turns := by
  cases turns with
  | nil => rfl
  | cons t turns =>
    rw [unprinted, unprinted, if_neg (h t List.mem_cons_self), if_neg (h' t List.mem_cons_self)]

theorem unprinted_of_eq {turn : Turn} (h : last = some turn.id) (turns : List Turn) :
    unprinted last (turn :: turns) = unprinted last turns :=
  if_pos h

/-! ### The printer and the transcript -/

/-- What is printed of a turn. -/
def block? (turn : Turn) : Option Shown :=
  if turn.reply.render.isEmpty then none else some (.reply turn.reply.render)

theorem printTurn_eq (p : Printer) (turn : Turn) :
    p.printTurn turn = if p.printed = some turn.id then (none, p)
      else (block? turn, { p with printed := some turn.id }) := rfl

/-- What a printer knows of the past, if it has been shown the turn of a transcript. -/
structure Knows (last : Option TurnId) (t : Transcript) : Prop where
  of_complete : t.isComplete = true → last = some t.id
  of_fresh : t.begun = false → ∀ id, last = some id → id = .made 1

/-- The turn of a transcript, if it is to be printed when it has changed. -/
def news (last : Option TurnId) (v : Vocabulary) (t : Transcript) : List Turn :=
  if t.isComplete = true ∧ last ≠ some t.id then [t.turn v] else []

def lastAfter (last : Option TurnId) (t : Transcript) : Option TurnId :=
  if t.isComplete then some t.id else last

theorem knows_none : Knows none {} := by
  constructor
  · rintro ⟨⟩
  · rintro - id ⟨⟩

theorem Knows.add (h : Knows last t) (hsound : t.IsSound) (m : Message) :
    Knows (lastAfter last (t.add m)) (t.add m) := by
  constructor
  · intro hcomplete
    rw [lastAfter, if_pos hcomplete]
  · intro hbegun id hid
    rw [lastAfter] at hid
    split at hid
    · rw [← Option.some.inj hid]
      exact ((hsound.add m).fresh hbegun).1
    · exact h.of_fresh (Transcript.not_begun_of_add hbegun) id hid

/-- The same turn again was complete before if it is now. -/
theorem Knows.of_turn_eq {t' : Transcript} (h : Knows last t) (hsame : t.turn v = t'.turn v) :
    t'.isComplete = true → last = some t'.id := by
  intro hcomplete
  have hcomplete' : t.isComplete = true := (congrArg Turn.complete hsame).trans hcomplete
  rw [h.of_complete hcomplete']
  exact congrArg (fun turn : Turn ↦ some turn.id) hsame

theorem lastAfter_of_printed (h : t.isComplete = true → last = some t.id) :
    lastAfter last t = last := by
  rw [lastAfter]
  split
  · next hcomplete => exact (h hcomplete).symm
  · rfl

/-- A turn that ends when the next one begins has been printed before, or it is never. -/
theorem Knows.unprinted_cons (h : Knows last t) :
    unprinted last (due ended (t.turns v (m :: ms))) =
      unprinted last (due ended ((t.add m).turns v ms)) := by
  rw [Transcript.turns]
  split
  · next hends =>
    have hnext : (t.add m).turns v ms ≠ [] := by
      apply Transcript.turns_ne_nil
      rw [Transcript.add_of_begins (Bool.and_eq_true_iff.1 hends).2]
    rw [List.singleton_append, due_cons _ hnext]
    split
    · next hcomplete =>
      rw [List.singleton_append, unprinted_of_eq (h.of_complete hcomplete)]
    · rfl
  · rfl

theorem block?_of_raw_eq_empty (h : t.raw = "") : block? (t.turn v) = none := by
  rw [block?, Transcript.turn, h, Reply.parse_empty]
  rfl

/-- The end of a turn that has begun: the turn is the next one to print, unless it was the last. -/
theorem unprinted_due_of_begun (hbegun : t.begun = true) (hcomplete : t.isComplete = true)
    (hne : last ≠ some t.id) :
    unprinted last (due ended (t.turns v ms)) =
      t.turn v :: unprinted (some t.id) (due ended (t.turns v ms)) := by
  obtain ⟨rest, hrest⟩ : ∃ rest, due ended (t.turns v ms) = t.turn v :: rest :=
    exists_due_of_isComplete hbegun hcomplete
  have hleft : unprinted last (t.turn v :: rest) = t.turn v :: unprinted (some t.id) rest := if_neg hne
  have hafter : unprinted (some t.id) (t.turn v :: rest) = unprinted (some t.id) rest := by
    apply unprinted_of_eq
    rw [Transcript.id_turn]
  rw [hrest, hleft, hafter]

/-- The end of a turn that has not begun: no turn has its id, so it does not change what is left. -/
theorem unprinted_due_of_not_begun (hsound : t.IsSound) (hbegun : t.begun = false)
    (hfresh : ∀ id, last = some id → id = .made 1) :
    unprinted last (due ended (t.turns v ms)) =
      unprinted (some t.id) (due ended (t.turns v ms)) := by
  have hturns : ∀ turn ∈ due ended (t.turns v ms), turn.id ≠ .made 1 := by
    intro turn hturn
    exact Transcript.id_ne_of_mem_turns hsound (mem_of_mem_due hturn)
  apply unprinted_congr
  · intro turn hturn heq
    exact hturns turn hturn (hfresh turn.id heq)
  · intro turn hturn heq
    rw [(hsound.fresh hbegun).1] at heq
    exact hturns turn hturn (Option.some.inj heq).symm

/-- What is left to print when a turn has changed is the turn itself, if it is complete now, and what is
left to print after it. -/
theorem blocks_news (hsound : t.IsSound)
    (hfresh : t.begun = false → ∀ id, last = some id → id = .made 1) :
    (unprinted last (due ended (t.turns v ms))).filterMap block? =
      (news last v t).filterMap block? ++
        (unprinted (lastAfter last t) (due ended (t.turns v ms))).filterMap block? := by
  rw [news]
  by_cases hnew : t.isComplete = true ∧ last ≠ some t.id
  · obtain ⟨hcomplete, hne⟩ := hnew
    rw [if_pos ⟨hcomplete, hne⟩, lastAfter, if_pos hcomplete]
    cases hbegun : t.begun with
    | true =>
      rw [unprinted_due_of_begun hbegun hcomplete hne, ← List.filterMap_append,
        List.singleton_append]
    | false =>
      have hblank : block? (t.turn v) = none := block?_of_raw_eq_empty (hsound.fresh hbegun).2
      rw [unprinted_due_of_not_begun hsound hbegun (hfresh hbegun), List.filterMap_cons_none hblank]
      rfl
  · have hprinted : t.isComplete = true → last = some t.id := by
      intro hcomplete
      by_contra hne
      exact hnew ⟨hcomplete, hne⟩
    rw [if_neg hnew, lastAfter_of_printed hprinted]
    rfl

end Watch

namespace Watch

/-- Something that happens to a watch. -/
inductive Action where
  | post (e : Event)
  | next
  | type (line : String)
  | advance (span : ℕ)
  /-- The user ends the watch. -/
  | interrupt

def perform (w : Watch) : Action → List Written × Watch
  | .post e => ([], w.post e)
  | .next => w.next
  | .type line => w.type line
  | .advance span => w.advance span
  | .interrupt => if w.outcome.isSome then ([], w) else w.finish .ended

/-- Everything that is written in a run, and the watch after it. -/
def run (w : Watch) : List Action → List Written × Watch
  | [] => ([], w)
  | a :: actions => ((w.perform a).1 ++ ((w.perform a).2.run actions).1, ((w.perform a).2.run actions).2)

/-- The message that the session takes in a step. -/
def message? (w : Watch) : Action → Option Message
  | .next =>
    if w.outcome.isSome then none
    else w.live.inbox.queue.head?.bind fun e ↦ w.session.received (.handle e)
  | .post _ | .type _ | .advance _ | .interrupt => none

def messages (w : Watch) : List Action → List Message
  | [] => []
  | a :: actions => (w.message? a).toList ++ (w.perform a).2.messages actions

/-- What is printed on standard output. -/
def blocks (written : List Written) : List Shown :=
  written.filterMap fun | .turn shown => some shown | .line _ => none

@[simp] theorem blocks_nil : blocks [] = [] := rfl

@[simp] theorem blocks_append (xs ys : List Written) : blocks (xs ++ ys) = blocks xs ++ blocks ys :=
  List.filterMap_append

@[simp] theorem blocks_map_turn (shown : List Shown) : blocks (shown.map .turn) = shown := by
  rw [blocks, List.filterMap_map]
  exact List.filterMap_some

@[simp] theorem blocks_map_line (lines : List String) : blocks (lines.map .line) = [] := by
  rw [blocks, List.filterMap_map]
  exact List.filterMap_eq_nil_iff.2 fun _ _ ↦ rfl

variable {w w' : Watch} {v : Vocabulary} {t : Transcript} {ms : List Message} {ended : Bool}

/-! ### A watch that looks at a step -/

/-- The watch once it has taken the notices of a step. -/
def noticed (w : Watch) : Watch :=
  ({ w with everConnected := w.everConnected || w.session.isConnected } : Watch).takeNotices.2

theorem exists_takeTurn_snd (w : Watch) :
    ∃ printer seen, w.takeTurn.2 = { w with printer := printer, seen := seen } := by
  unfold takeTurn
  dsimp only
  split
  · exact ⟨_, _, rfl⟩
  · exact ⟨w.printer, w.seen, rfl⟩

/-- A watch that does not end with a turn ends only when its channels are spent. -/
theorem review_of_goesOn (h : w.options.once = false) :
    w.review = (w.takeNotices.1 ++ w.noticed.takeTurn.1 ++ w.noticed.takeTurn.2.finishIfSpent.1,
      w.noticed.takeTurn.2.finishIfSpent.2) := by
  have hgoesOn : isSatisfied w.noticed w.noticed.takeTurn.2 = false := by
    obtain ⟨printer, seen, hturn⟩ := w.noticed.exists_takeTurn_snd
    have honce : w.noticed.takeTurn.2.options.once = false := by
      rw [hturn]
      exact h
    rw [isSatisfied, honce, Bool.false_and, Bool.false_and]
  rw [noticed] at hgoesOn
  rw [review]
  dsimp only
  rw [hgoesOn]
  rfl

/-- A watch that prints text has shown the turn of a transcript and goes on. -/
structure Shows (w : Watch) (v : Vocabulary) (t : Transcript) : Prop where
  running : w.outcome = none
  asText : w.printer.asJson = false
  goesOn : w.options.once = false
  vocabulary_eq : w.session.vocabulary = v
  follows : w.session.Follows t
  seen_eq : w.seen = w.session.snapshot.count
  isSound : t.IsSound
  knows : Knows w.printer.printed t

/-- A watch has its session changed by a message at most, and has not looked at it yet. -/
structure Takes (w : Watch) (m : Option Message) (w' : Watch) : Prop where
  core_eq : w'.session.core = (m.elim w.session w.session.dispatch).core
  options_eq : w'.options = w.options
  printer_eq : w'.printer = w.printer
  seen_eq : w'.seen = w.seen
  outcome_eq : w'.outcome = w.outcome

/-- What is printed from here on, if these are the messages to come. -/
def ahead (w : Watch) (v : Vocabulary) (t : Transcript) (ended : Bool) (ms : List Message) : List Shown :=
  (unprinted w.printer.printed (due ended (t.turns v ms))).filterMap block?

theorem Shows.not_isSome (h : w.Shows v t) : ¬w.outcome.isSome = true := by
  rw [h.running]
  rintro ⟨⟩

theorem Shows.of_takes (h : w.Shows v t) (htakes : w.Takes none w') : w'.Shows v t := by
  have hcore : w'.session.core = w.session.core := htakes.core_eq
  constructor
  · rw [htakes.outcome_eq, h.running]
  · rw [htakes.printer_eq, h.asText]
  · rw [htakes.options_eq, h.goesOn]
  · exact (congrArg Session.Core.vocabulary hcore).trans h.vocabulary_eq
  · exact h.follows.of_core_eq hcore
  · rw [htakes.seen_eq, h.seen_eq]
    exact congrArg (fun c ↦ c.snapshot.count) hcore.symm
  · exact h.isSound
  · rw [htakes.printer_eq]
    exact h.knows

/-! ### One step -/

theorem update_turn {p : Printer} (h : p.asJson = false) (v : Vocabulary) (t : Transcript) :
    (p.update (t.turn v)).1.toList = (news p.printed v t).filterMap block? ∧
      (p.update (t.turn v)).2 = { p with printed := lastAfter p.printed t } := by
  rw [Printer.update, if_neg (by simp [h]), Transcript.complete_turn, news, lastAfter]
  cases hc : t.isComplete with
  | false => exact ⟨rfl, rfl⟩
  | true =>
    rw [if_pos rfl, if_pos rfl, printTurn_eq, Transcript.id_turn]
    by_cases hlast : p.printed = some t.id
    · rw [if_pos hlast, if_neg (fun hnew ↦ hnew.2 hlast), ← hlast]
      exact ⟨rfl, rfl⟩
    · rw [if_neg hlast, if_pos ⟨rfl, hlast⟩]
      refine ⟨?_, rfl⟩
      cases hblock : block? (t.turn v) with
      | none => rw [List.filterMap_cons_none hblock]; rfl
      | some shown => rw [List.filterMap_cons_some hblock]; rfl

/-- What a watch does with the turn that a message has led to, be it another one or not. -/
theorem takeTurn_of_message (h : w.Shows v t) {m : Message} (htakes : w.Takes (some m) w') :
    blocks w'.takeTurn.1 = (news w.printer.printed v (t.add m)).filterMap block? ∧
      w'.takeTurn.2 = { w' with
        printer := { w.printer with printed := lastAfter w.printer.printed (t.add m) }
        seen := w'.session.snapshot.count } := by
  have hsnapshot : w'.session.snapshot = w.session.snapshot.update ((t.add m).turn v) := by
    have hdispatch := h.follows.snapshot_dispatch m
    rw [h.vocabulary_eq] at hdispatch
    exact (congrArg Session.Core.snapshot htakes.core_eq).trans hdispatch
  rw [takeTurn, htakes.seen_eq, htakes.printer_eq, h.seen_eq]
  dsimp only
  by_cases hsame : w.session.snapshot.value = (t.add m).turn v
  · have hold : t.turn v = (t.add m).turn v := by
      rw [← hsame, h.follows.shown_eq, h.follows.turn_eq, h.vocabulary_eq]
    have hlast := h.knows.of_turn_eq hold
    have hcount : w'.session.snapshot.count = w.session.snapshot.count := by
      rw [hsnapshot, Watched.update, if_pos hsame]
    rw [hcount, if_neg (Nat.lt_irrefl _), lastAfter_of_printed hlast, news, if_neg (fun hnew ↦ hnew.2 (hlast hnew.1))]
    constructor
    · rfl
    · rw [← htakes.printer_eq, ← h.seen_eq, ← htakes.seen_eq]
  · have hcount : w'.session.snapshot.count = w.session.snapshot.count + 1 := by
      rw [hsnapshot, Watched.update, if_neg hsame]
      rfl
    have hvalue : w'.session.snapshot.value = (t.add m).turn v := by
      rw [hsnapshot, Watched.value_update]
    obtain ⟨hshown, hprinter⟩ := update_turn h.asText v (t.add m)
    rw [hcount, if_pos (Nat.lt_succ_self _), hvalue]
    constructor
    · rw [blocks_map_turn, hshown]
    · rw [hprinter]

theorem Shows.takeTurn (h : w.Shows v t) {m : Option Message} (htakes : w.Takes m w') :
    w'.takeTurn.2.Shows v (t.addAll m.toList) ∧
      ∀ ended ms, w.ahead v t ended (m.toList ++ ms) =
        blocks w'.takeTurn.1 ++ w'.takeTurn.2.ahead v (t.addAll m.toList) ended ms := by
  cases m with
  | none =>
    have hshows := h.of_takes htakes
    have hnone : w'.takeTurn = ([], w') := by
      rw [Watch.takeTurn, hshows.seen_eq]
      exact if_neg (Nat.lt_irrefl _)
    rw [hnone]
    refine ⟨hshows, ?_⟩
    intro ended ms
    rw [ahead, ahead, htakes.printer_eq]
    rfl
  | some m =>
    obtain ⟨hblocks, hafter⟩ := takeTurn_of_message h htakes
    have hcore : w'.session.core = (w.session.dispatch m).core := htakes.core_eq
    rw [hblocks, hafter]
    refine ⟨?_, ?_⟩
    · constructor
      · exact htakes.outcome_eq.trans h.running
      · exact h.asText
      · exact (congrArg Options.once htakes.options_eq).trans h.goesOn
      · refine (congrArg Session.Core.vocabulary hcore).trans ?_
        exact (Session.vocabulary_dispatch w.session m).trans h.vocabulary_eq
      · exact (h.follows.dispatch m).of_core_eq hcore
      · rfl
      · exact h.isSound.add m
      · exact h.knows.add h.isSound m
    · intro ended ms
      rw [ahead, ahead, Option.toList_some, List.singleton_append, h.knows.unprinted_cons]
      apply blocks_news (h.isSound.add m)
      intro hbegun
      exact h.knows.of_fresh (Transcript.not_begun_of_add hbegun)

theorem finish_turn {p : Printer} (h : p.asJson = false) (hsound : t.IsSound) (hknows : Knows p.printed t) :
    (p.finish (t.turn v)).1.toList = (unprinted p.printed (due true (t.turns v []))).filterMap block? := by
  rw [Printer.finish, h, Bool.false_or, Transcript.raw_turn, Transcript.turns]
  cases hbegun : t.begun with
  | false =>
    rw [(hsound.fresh hbegun).2]
    rfl
  | true =>
    rw [if_pos rfl, due, List.getLast?_singleton, Option.filter_some, List.filter_singleton,
      Transcript.complete_turn, Transcript.raw_turn, printTurn_eq, Transcript.id_turn]
    cases hc : t.isComplete with
    | true =>
      -- a complete turn has been printed when it became so
      rw [if_pos (hknows.of_complete hc)]
      simp [unprinted, hknows.of_complete hc]
    | false =>
      cases t.raw.isEmpty with
      | true => rfl
      | false =>
        by_cases hlast : p.printed = some t.id
        · simp [unprinted, hlast]
        · cases hblock : block? (t.turn v) <;> simp [unprinted, hlast, hblock]

/-- A step prints what is to be printed: the watch goes on and the rest is still ahead, or it is over and
nothing is left. -/
def Prints (w : Watch) (v : Vocabulary) (t : Transcript) (m : Option Message)
    (step : List Written × Watch) : Prop :=
  (step.2.Shows v (t.addAll m.toList) ∧ ∀ ended ms, w.ahead v t ended (m.toList ++ ms) =
      blocks step.1 ++ step.2.ahead v (t.addAll m.toList) ended ms) ∨
    step.2.outcome.isSome = true ∧ w.ahead v t true m.toList = blocks step.1

variable {m : Option Message} {written : List Written} {step : List Written × Watch}

theorem Shows.prints_nil (h : w.Shows v t) : w.Prints v t none ([], w) :=
  .inl ⟨h, fun _ _ ↦ rfl⟩

theorem Shows.finish (h : w.Shows v t) (o : Outcome) : w.Prints v t none (w.finish o) := by
  have hvalue : w.session.disconnect.snapshot.value = t.turn v := by
    refine h.follows.shown_eq.trans ?_
    rw [h.follows.turn_eq, h.vocabulary_eq]
  right
  refine ⟨rfl, ?_⟩
  rw [Watch.finish]
  dsimp only
  rw [hvalue, blocks_map_turn, finish_turn h.asText h.isSound h.knows]
  rfl

theorem Shows.finishIfSpent (h : w.Shows v t) : w.Prints v t none w.finishIfSpent := by
  let left := w.exhausted.filter fun kind ↦ w.phase? kind = some Phase.failed
  have hleft : ({ w with exhausted := left } : Watch).Shows v t := h.of_takes ⟨rfl, rfl, rfl, rfl, rfl⟩
  rw [Watch.finishIfSpent]
  dsimp only
  split
  · exact hleft.finish _
  · exact hleft.prints_nil

theorem Prints.cons (hahead : ∀ ended ms, w.ahead v t ended (m.toList ++ ms) =
      blocks written ++ w'.ahead v (t.addAll m.toList) ended ms)
    (h : w'.Prints v (t.addAll m.toList) none step) :
    w.Prints v t m (written ++ step.1, step.2) := by
  rcases h with ⟨hshows, hrest⟩ | ⟨hover, hrest⟩
  · left
    refine ⟨hshows, ?_⟩
    intro ended ms
    rw [hahead, blocks_append, List.append_assoc]
    exact congrArg _ (hrest ended ms)
  · right
    refine ⟨hover, ?_⟩
    have htrue := hahead true []
    rw [List.append_nil] at htrue
    rw [htrue, blocks_append]
    exact congrArg _ hrest

theorem Shows.review (h : w.Shows v t) (htakes : w.Takes m w') : w.Prints v t m w'.review := by
  have hnoticed : w.Takes m w'.noticed :=
    ⟨htakes.core_eq, htakes.options_eq, htakes.printer_eq, htakes.seen_eq, htakes.outcome_eq⟩
  obtain ⟨hshows, hahead⟩ := h.takeTurn hnoticed
  have hgoesOn : w'.options.once = false := by rw [htakes.options_eq, h.goesOn]
  have hlines : blocks w'.takeNotices.1 = [] := blocks_map_line _
  rw [review_of_goesOn hgoesOn]
  refine Prints.cons ?_ hshows.finishIfSpent
  intro ended ms
  rw [blocks_append, hlines, List.nil_append, hahead]

theorem takes_handle (w : Watch) (e : Event) (inbox : Inbox) :
    w.Takes (w.session.received (.handle e))
      { w with live := ({ w.live with inbox := inbox } : LiveSession).handle e } := by
  refine ⟨?_, rfl, rfl, rfl, rfl⟩
  change (w.session.perform (.handle e)).core = _
  cases hr : w.session.received (.handle e) with
  | none => exact Session.core_perform_of_received_eq_none hr
  | some m =>
    rw [Session.perform_of_received_eq_some hr]
    rfl

theorem Shows.next (h : w.Shows v t) : w.Prints v t (w.message? .next) w.next := by
  rw [message?, if_neg h.not_isSome, Watch.next, if_neg h.not_isSome, LiveSession.step?, Inbox.take?]
  cases hqueue : w.live.inbox.queue with
  | nil => exact h.prints_nil
  | cons e queue => exact h.review (takes_handle w e _)

theorem Shows.type (h : w.Shows v t) (line : String) : w.Prints v t none (w.type line) := by
  rw [Watch.type, if_neg h.not_isSome]
  split
  · exact h.review ⟨rfl, rfl, rfl, rfl, rfl⟩
  · have hsent : w.Takes none (w.update (w.session.send line).2) :=
      ⟨Session.core_send w.session line, rfl, rfl, rfl, rfl⟩
    have hprints := h.review hsent
    split
    · next session hsend =>
      rw [hsend] at hprints
      exact hprints
    · next error session hsend =>
      rw [hsend] at hprints
      exact hprints

theorem Shows.advance (h : w.Shows v t) (span : ℕ) : w.Prints v t none (w.advance span) := by
  have hlater : ({ w with live := w.live.advance span } : Watch).Shows v t :=
    h.of_takes ⟨rfl, rfl, rfl, rfl, rfl⟩
  rw [Watch.advance, if_neg h.not_isSome]
  dsimp only
  split
  · exact hlater.finish _
  · exact hlater.prints_nil

theorem Shows.perform (h : w.Shows v t) (a : Action) : w.Prints v t (w.message? a) (w.perform a) := by
  cases a with
  | post e =>
    have hposted : (w.post e).Shows v t := h.of_takes ⟨rfl, rfl, rfl, rfl, rfl⟩
    exact hposted.prints_nil
  | next => exact h.next
  | type line => exact h.type line
  | advance span => exact h.advance span
  | interrupt =>
    rw [Watch.perform, if_neg h.not_isSome]
    exact h.finish .ended

/-! ### A run -/

theorem perform_of_isSome (h : w.outcome.isSome = true) (a : Action) :
    (w.perform a).1 = [] ∧ (w.perform a).2.outcome.isSome = true ∧ w.message? a = none := by
  cases a with
  | post e => exact ⟨rfl, h, rfl⟩
  | next =>
    rw [perform, Watch.next, if_pos h, message?, if_pos h]
    exact ⟨rfl, h, rfl⟩
  | type line =>
    rw [perform, Watch.type, if_pos h]
    exact ⟨rfl, h, rfl⟩
  | advance span =>
    rw [perform, Watch.advance, if_pos h]
    exact ⟨rfl, h, rfl⟩
  | interrupt =>
    rw [perform, if_pos h]
    exact ⟨rfl, h, rfl⟩

theorem run_of_isSome (h : w.outcome.isSome = true) (actions : List Action) :
    (w.run actions).1 = [] ∧ (w.run actions).2.outcome.isSome = true ∧ w.messages actions = [] := by
  induction actions generalizing w with
  | nil => exact ⟨rfl, h, rfl⟩
  | cons a actions ih =>
    obtain ⟨hwritten, hover, hmessage⟩ := perform_of_isSome h a
    obtain ⟨hwritten', hover', hmessages⟩ := ih hover
    rw [run, messages, hwritten, hwritten', hmessage, hmessages]
    exact ⟨rfl, hover', rfl⟩

theorem Shows.run (h : w.Shows v t) (actions : List Action) :
    blocks (w.run actions).1 =
      w.ahead v t (w.run actions).2.outcome.isSome (w.messages actions) := by
  induction actions generalizing w t with
  | nil =>
    rw [Watch.run, messages, h.running, ahead, due, Transcript.turns]
    -- of the turn that is shown nothing is left to print while the watch goes on
    cases hbegun : t.begun with
    | false => rfl
    | true =>
      cases hc : t.isComplete with
      | false => simp [hc, unprinted]
      | true => simp [hc, unprinted, h.knows.of_complete hc]
  | cons a actions ih =>
    rw [Watch.run, messages, blocks_append]
    rcases h.perform a with ⟨hshows, hahead⟩ | ⟨hover, hahead⟩
    · rw [ih hshows, hahead]
    · obtain ⟨hwritten, hover', hmessages⟩ := run_of_isSome hover actions
      rw [hwritten, hover', hmessages, List.append_nil, hahead, blocks_nil, List.append_nil]

theorem shows_begin (mode : Mode) (o : Session.Options) (timeout : ℕ) :
    (begin (.ofMode mode o) { connectTimeout := timeout }).Shows o.vocabulary {} := by
  have hcore : (Session.ofMode mode o).connect.2.core = (Session.ofMode mode o).core :=
    Session.core_perform_of_received_eq_none (a := .connect) rfl
  constructor
  · rfl
  · rfl
  · rfl
  · exact congrArg Session.Core.vocabulary hcore
  · exact (Session.follows_ofMode mode o).of_core_eq hcore
  · exact congrArg (fun c ↦ c.snapshot.count) hcore.symm
  · exact Transcript.isSound_new
  · exact knows_none

/-- What a watch prints as text is decided by the messages that its session takes: the turns that are
complete, each with its final contents, and at the end the one that has not been completed. A turn with the
id of the one printed before it is skipped; if there is none of these, every turn is printed once. -/
theorem run_prints_turns (mode : Mode) (o : Session.Options) (timeout : ℕ) (actions : List Action) :
    let start := begin (.ofMode mode o) { connectTimeout := timeout }
    let turns := Transcript.turns o.vocabulary {} (start.messages actions)
    let due := due (start.run actions).2.outcome.isSome turns
    blocks (start.run actions).1 = (due.destutter fun a b ↦ a.id ≠ b.id).filterMap block? ∧
      (due.IsChain (fun a b ↦ a.id ≠ b.id) → blocks (start.run actions).1 = due.filterMap block?) := by
  intro start turns due
  have hblocks : blocks (start.run actions).1 =
      (due.destutter fun a b ↦ a.id ≠ b.id).filterMap block? := by
    rw [destutter_eq_unprinted]
    exact (shows_begin mode o timeout).run actions
  refine ⟨hblocks, ?_⟩
  intro hchain
  rw [hblocks, List.destutter_of_isChain _ due hchain]

/-- Two turns are completed, and then the user ends the watch. -/
def twoTurns (first second : String) : List Action :=
  let frame (id text : String) : Event :=
    ⟨.events, 1, .frame s!"\x7b\"type\": \"generate\", \"id\": \"{id}\", \"content\": \"{text}\", \"complete\": true\x7d"⟩
  [.post ⟨.events, 1, .opened⟩, .next, .post (frame first "<result>one</result>"), .next,
    .post (frame second "<result>two</result>"), .next, .interrupt]

theorem run_prints_turns_distinct :
    let start := begin (.ofMode .events {}) {}
    blocks (start.run (twoTurns "a" "b")).1 = [.reply "result: one\n", .reply "result: two\n"] := by
  intro start
  obtain ⟨-, hprints⟩ := run_prints_turns .events {} 0 (twoTurns "a" "b")
  rw [hprints (by decide +kernel)]
  decide +kernel

/-- A server may give a turn the id of the one before. It is a turn of its own, but it is not printed. -/
theorem run_skips_repeated_id :
    let start := begin (.ofMode .events {}) {}
    let turns := Transcript.turns .standard {} (start.messages (twoTurns "a" "a"))
    turns.map Turn.raw = ["<result>one</result>", "<result>two</result>"] ∧
      turns.all Turn.complete = true ∧
      blocks (start.run (twoTurns "a" "a")).1 = [.reply "result: one\n"] ∧
      blocks (start.run (twoTurns "a" "a")).1 ≠
        (due (start.run (twoTurns "a" "a")).2.outcome.isSome turns).filterMap block? := by
  decide +kernel

end Watch
end AgentReply
