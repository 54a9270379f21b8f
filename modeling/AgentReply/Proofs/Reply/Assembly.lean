import AgentReply.Reply.Turn
import Mathlib.Data.List.DropRight
import Mathlib.Data.List.Induction

/-!
# Cutting a text into pieces changes nothing

A turn keeps the reply that its text reads as, so it is decided by the pieces that have come since it
began, and of these by their concatenation alone. The pieces into which a text is cut are full but for
the last, and they make up the text.
-/

namespace AgentReply

namespace Reply

@[simp] theorem parse_empty (v : Vocabulary) : parse v "" = {} := by
  have hscan : Token.scan v [] = [] := by simp
  have hdocument : Document.parse v "" = ⟨[], []⟩ := by
    rw [Document.parse, String.toList_empty, hscan]
    rfl
  rw [parse, hdocument]
  rfl

end Reply

namespace Turn

theorem append_parse (v : Vocabulary) (id : TurnId) (raw text : String) (complete : Bool) :
    append v ⟨id, raw, Reply.parse v raw, complete⟩ text =
      ⟨id, raw ++ text, Reply.parse v (raw ++ text), complete⟩ := by
  unfold append
  split
  · next h => rw [String.isEmpty_iff.1 h, String.append_empty]
  · rfl

end Turn

namespace Text

variable {size : ℕ} {s last : List Char} {init : List (List Char)}

theorem length_of_chunksOfSucc_eq (h : chunksOfSucc size s = init ++ [last]) :
    (∀ p ∈ init, p.length = size + 1) ∧ 1 ≤ last.length ∧ last.length ≤ size + 1 := by
  induction s using chunksOfSucc.induct size generalizing init with
  | case1 =>
    rw [chunksOfSucc] at h
    simp at h
  | case2 c rest ih =>
    rw [chunksOfSucc] at h
    cases init with
    | nil =>
      obtain ⟨rfl, -⟩ := List.cons.inj h
      simp only [List.length_cons, List.length_take]
      refine ⟨by simp, ?_, ?_⟩ <;> omega
    | cons p init =>
      obtain ⟨rfl, htail⟩ := List.cons.inj h
      obtain ⟨hinit, hlast⟩ := ih htail
      -- more pieces follow, so this one is full
      have hrest : rest.drop size ≠ [] := by
        intro hnil
        rw [hnil, chunksOfSucc] at htail
        simp at htail
      rw [ne_eq, List.drop_eq_nil_iff, not_le] at hrest
      refine ⟨?_, hlast⟩
      intro q hq
      rcases List.mem_cons.1 hq with rfl | hq
      · simp only [List.length_cons, List.length_take]
        omega
      · exact hinit q hq

theorem join_chunks (text : String) (size : ℕ) : String.join (chunks text size) = text := by
  apply String.toList_injective
  rw [String.toList_join, chunks, List.flatMap_map]
  simp only [String.toList_ofList]
  rw [List.flatMap_id', flatten_chunksOfSucc]

theorem length_of_chunks_eq {text last : String} {init : List String} {size : ℕ} (hsize : 1 ≤ size)
    (h : chunks text size = init ++ [last]) :
    (∀ p ∈ init, p.length = size) ∧ 1 ≤ last.length ∧ last.length ≤ size := by
  obtain ⟨init, last, hchunks, rfl, hlast⟩ := List.map_eq_append_iff.1 h
  obtain ⟨last, rfl, rfl⟩ := List.map_eq_singleton_iff.1 hlast
  obtain ⟨hinit, hpos, hle⟩ := length_of_chunksOfSucc_eq hchunks
  rw [String.length_ofList]
  refine ⟨?_, hpos, ?_⟩
  · intro p hp
    obtain ⟨q, hq, rfl⟩ := List.mem_map.1 hp
    have hlength := hinit q hq
    rw [String.length_ofList]
    omega
  · omega

end Text

namespace Assembly

/-- What may be asked of an assembly. A snapshot is the turn as it stands. -/
inductive Action where
  | begin (id : Option String)
  | reset
  | append (text : String)
  | markComplete
  | snapshot
deriving DecidableEq, Repr

namespace Action

def startsTurn : Action → Bool
  | .begin _ | .reset => true
  | .append _ | .markComplete | .snapshot => false

def piece? : Action → Option String
  | .append text => some text
  | .begin _ | .reset | .markComplete | .snapshot => none

/-- The actions since the turn began with which a list of actions ends. -/
def ofLastTurn (actions : List Action) : List Action :=
  actions.rtakeWhile fun a ↦ !a.startsTurn

variable {a : Action}

theorem ofLastTurn_concat_of_startsTurn (h : a.startsTurn = true) (actions : List Action) :
    ofLastTurn (actions ++ [a]) = [] := by
  apply List.rtakeWhile_concat_neg
  simp [h]

theorem ofLastTurn_append (actions : List Action) {later : List Action}
    (h : ∀ a ∈ later, a.startsTurn = false) :
    ofLastTurn (actions ++ later) = ofLastTurn actions ++ later := by
  induction later using List.reverseRecOn with
  | nil => simp
  | append_singleton later a ih =>
    have hlater : ∀ b ∈ later, b.startsTurn = false := fun b hb ↦ h b (by simp [hb])
    have ha : a.startsTurn = false := h a (by simp)
    have hstep : ofLastTurn (actions ++ later ++ [a]) = ofLastTurn (actions ++ later) ++ [a] := by
      apply List.rtakeWhile_concat_pos
      simp [ha]
    rw [← List.append_assoc, hstep, ih hlater, List.append_assoc]

end Action

def perform (v : Vocabulary) (a : Assembly) : Action → Assembly
  | .begin id => a.begin id
  | .reset => a.begin none
  | .append text => a.append v text
  | .markComplete => a.markComplete
  | .snapshot => a

def run (v : Vocabulary) (a : Assembly) (actions : List Action) : Assembly :=
  actions.foldl (perform v) a

variable {v : Vocabulary} {a : Assembly} {text : String}

/-- A turn that is made of some actions: their pieces, read, and complete if one of them says so. -/
structure IsOf (v : Vocabulary) (t : Turn) (actions : List Action) : Prop where
  raw_eq : t.raw = String.join (actions.filterMap Action.piece?)
  reply_eq : t.reply = Reply.parse v t.raw
  complete_iff : t.complete = true ↔ .markComplete ∈ actions

theorem isOf_begin (a : Assembly) (id : Option String) : IsOf v (a.begin id).turn [] := by
  cases id <;> exact ⟨rfl, (Reply.parse_empty v).symm, by simp [begin]⟩

theorem reply_append (h : a.turn.reply = Reply.parse v a.turn.raw) (text : String) :
    (a.append v text).turn.reply = Reply.parse v (a.turn.raw ++ text) := by
  obtain ⟨⟨id, raw, reply, complete⟩, made⟩ := a
  obtain rfl : reply = Reply.parse v raw := h
  rw [append, Turn.append_parse]

theorem isOf_perform {actions : List Action} (h : IsOf v a.turn (Action.ofLastTurn actions))
    (b : Action) : IsOf v (a.perform v b).turn (Action.ofLastTurn (actions ++ [b])) := by
  cases b with
  | begin id =>
    rw [Action.ofLastTurn_concat_of_startsTurn rfl]
    exact isOf_begin a id
  | reset =>
    rw [Action.ofLastTurn_concat_of_startsTurn rfl]
    exact isOf_begin a none
  | append text =>
    rw [Action.ofLastTurn_append _ (by simp [Action.startsTurn])]
    constructor
    · simp [perform, append, h.raw_eq, Action.piece?]
    · rw [perform, reply_append h.reply_eq, append, Turn.raw_append]
    · simp [perform, append, h.complete_iff]
  | markComplete =>
    rw [Action.ofLastTurn_append _ (by simp [Action.startsTurn])]
    constructor
    · simp [perform, markComplete, Turn.markComplete, h.raw_eq, List.filterMap_cons, Action.piece?]
    · exact h.reply_eq
    · simp [perform, markComplete, Turn.markComplete]
  | snapshot =>
    rw [Action.ofLastTurn_append _ (by simp [Action.startsTurn])]
    constructor
    · simp [perform, h.raw_eq, List.filterMap_cons, Action.piece?]
    · exact h.reply_eq
    · simp [perform, h.complete_iff]

theorem isOf_run (v : Vocabulary) (actions : List Action) :
    IsOf v (run v {} actions).turn (Action.ofLastTurn actions) := by
  induction actions using List.reverseRecOn with
  | nil => exact ⟨rfl, (Reply.parse_empty v).symm, by simp [run, Action.ofLastTurn]⟩
  | append_singleton actions a ih =>
    rw [run, List.foldl_append]
    exact isOf_perform ih a

theorem isOf_ofText (v : Vocabulary) (text : String) (size : Option ℕ) :
    (ofText v text size).turn.raw = text ∧
      (ofText v text size).turn.reply = Reply.parse v text ∧
        (ofText v text size).turn.complete = true := by
  let pieces := size.elim [text] (Text.chunks text)
  let later := pieces.map Action.append ++ [.markComplete]
  have hjoin : String.join pieces = text := by
    cases size with
    | none => simp [pieces]
    | some n => exact Text.join_chunks text n
  have hrun : ofText v text size = run v {} ([.begin none] ++ later) := by
    rw [run, List.foldl_append, List.foldl_append, List.foldl_map]
    rfl
  have hlast : Action.ofLastTurn ([.begin none] ++ later) = later := by
    apply Action.ofLastTurn_append
    simp only [later, List.mem_append, List.mem_map, List.mem_singleton]
    rintro a (⟨piece, -, rfl⟩ | rfl) <;> rfl
  have hof := isOf_run v ([.begin none] ++ later)
  rw [← hrun, hlast] at hof
  have hpieces : later.filterMap Action.piece? = pieces := by
    have hpiece : Action.piece? ∘ Action.append = some := rfl
    rw [List.filterMap_append, List.filterMap_map, hpiece, List.filterMap_some]
    exact List.append_nil pieces
  have hraw : (ofText v text size).turn.raw = text := by rw [hof.raw_eq, hpieces, hjoin]
  refine ⟨hraw, ?_, ?_⟩
  · rw [hof.reply_eq, hraw]
  · apply hof.complete_iff.2
    simp [later]

/-- Where a text was cut is never seen. Whatever has been asked of an assembly, its turn has the pieces
since the turn began, end to end, as its text, and the reading of that text as its reply; it is complete
if it was marked so since. The pieces into which a text is cut make up the text, and all are full but the
last, which is not empty; so what comes of them is what comes of the whole. -/
theorem run_ignores_cuts (v : Vocabulary) :
    (∀ actions : List Action,
      let turn := (run v {} actions).turn
      let current := Action.ofLastTurn actions
      turn.raw = String.join (current.filterMap Action.piece?) ∧
        turn.reply = Reply.parse v turn.raw ∧
          (turn.complete = true ↔ .markComplete ∈ current)) ∧
    ∀ (text : String) (size : ℕ), 1 ≤ size →
      String.join (Text.chunks text size) = text ∧
      (∀ init last, Text.chunks text size = init ++ [last] →
        (∀ p ∈ init, p.length = size) ∧ 1 ≤ last.length ∧ last.length ≤ size) ∧
      let whole := (ofText v text none).turn
      let cut := (ofText v text (some size)).turn
      cut.reply = whole.reply ∧ cut.raw = whole.raw ∧ cut.complete = whole.complete := by
  constructor
  · intro actions turn current
    have h := isOf_run v actions
    exact ⟨h.raw_eq, h.reply_eq, h.complete_iff⟩
  · intro text size hsize
    refine ⟨Text.join_chunks text size, fun init last ↦ Text.length_of_chunks_eq hsize, ?_⟩
    intro whole cut
    obtain ⟨hraw, hreply, hcomplete⟩ := isOf_ofText v text none
    obtain ⟨hraw', hreply', hcomplete'⟩ := isOf_ofText v text (some size)
    exact ⟨hreply'.trans hreply.symm, hraw'.trans hraw.symm, hcomplete'.trans hcomplete.symm⟩

theorem run_ignores_cuts_unevenly :
    let text := "<result>h\u00e9llo</result>"
    1 ≤ 7 ∧ Text.chunks text 7 = ["<result", ">h\u00e9llo<", "/result"] ++ [">"] ∧
      1 ≤ ">".length ∧ ">".length ≤ 7 ∧
      (ofText .standard text (some 7)).turn.reply = (ofText .standard text none).turn.reply := by
  intro text
  obtain ⟨-, hlengths, hreply, -⟩ := (run_ignores_cuts .standard).2 text 7 (by decide)
  have hchunks : Text.chunks text 7 = ["<result", ">h\u00e9llo<", "/result"] ++ [">"] := by
    decide +kernel
  obtain ⟨-, hpos, hle⟩ := hlengths _ _ hchunks
  exact ⟨by decide, hchunks, hpos, hle, hreply⟩

end Assembly
end AgentReply
