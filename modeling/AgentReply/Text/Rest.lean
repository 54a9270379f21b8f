/-!
# What is left of a text

A reader at the head of a text gives what is left of the text together with a proof that it is shorter
(`Rest`) or no longer (`Tail`). That is what makes the readers built from it end.
-/

namespace AgentReply.Text

/-- What is left of a text after some of its characters. -/
abbrev Rest (s : List Char) := { rest : List Char // rest.length < s.length }

/-- What is left of a text after some or none of its characters. -/
abbrev Tail (s : List Char) := { tail : List Char // tail.length ≤ s.length }

theorem length_lt_cons (c : Char) (s : List Char) : s.length < (c :: s).length :=
  Nat.lt_succ_self _

theorem length_drop_le (n : Nat) (s : List Char) : (s.drop n).length ≤ s.length :=
  (List.drop_sublist n s).length_le

theorem length_dropWhile_le (p : Char → Bool) (s : List Char) :
    (s.dropWhile p).length ≤ s.length :=
  (List.dropWhile_sublist p).length_le

theorem length_dropWhile_lt {p : Char → Bool} {s : List Char}
    (h : (s.takeWhile p).isEmpty = false) : (s.dropWhile p).length < s.length := by
  have := congrArg List.length (List.takeWhile_append_dropWhile (p := p) (l := s))
  cases ht : s.takeWhile p with
  | nil => simp [ht] at h
  | cons c r => simp [ht] at this; omega

theorem length_of_dropWhile {p : Char → Bool} {s rest : List Char} {c : Char}
    (h : s.dropWhile p = c :: rest) : rest.length < s.length := by
  have := length_dropWhile_le p s
  rw [h] at this
  exact this

/-- Induction along the reading of a text: what holds of all that may be left holds of the text. -/
@[elab_as_elim]
theorem rest_induction {motive : List Char → Prop}
    (step : ∀ s, (∀ rest, rest.length < s.length → motive rest) → motive s) (s : List Char) :
    motive s :=
  step s fun rest _ ↦ rest_induction step rest
termination_by s.length

namespace Tail

def whole (s : List Char) : Tail s := ⟨s, Nat.le_refl _⟩

def drop (n : Nat) (s : List Char) : Tail s := ⟨s.drop n, length_drop_le n s⟩

def dropWhile (p : Char → Bool) (s : List Char) : Tail s := ⟨s.dropWhile p, length_dropWhile_le p s⟩

/-- The same with one more character at the head of the text. -/
def behind {s : List Char} (c : Char) (t : Tail s) : Tail (c :: s) := ⟨t.1, Nat.le_succ_of_le t.2⟩

/-- What is left of what is left. -/
def andTail {s : List Char} (t : Tail s) (u : Tail t.1) : Tail s := ⟨u.1, Nat.le_trans u.2 t.2⟩

def andRest {s : List Char} (t : Tail s) (r : Rest t.1) : Rest s :=
  ⟨r.1, Nat.lt_of_lt_of_le r.2 t.2⟩

end Tail

namespace Rest

def first (c : Char) (s : List Char) : Rest (c :: s) := ⟨s, length_lt_cons c s⟩

def behind {s : List Char} (c : Char) (r : Rest s) : Rest (c :: s) := ⟨r.1, Nat.lt_succ_of_lt r.2⟩

def toTail {s : List Char} (r : Rest s) : Tail s := ⟨r.1, Nat.le_of_lt r.2⟩

def andTail {s : List Char} (r : Rest s) (t : Tail r.1) : Rest s :=
  ⟨t.1, Nat.lt_of_le_of_lt t.2 r.2⟩

def andRest {s : List Char} (r : Rest s) (q : Rest r.1) : Rest s := ⟨q.1, Nat.lt_trans q.2 r.2⟩

end Rest
end AgentReply.Text
