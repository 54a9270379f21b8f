import AgentReply.Channel.EventStream
import AgentReply.Proofs.Text.Utf8

/-!
# Event streams that arrive in pieces

The items of a stream do not depend on how the stream is cut: not within a character, not within a line and
not within an item.
-/

namespace AgentReply.EventStream

/-! ### Lines -/

section

variable {s line rest : List Char}

theorem splitLine?_append (h : splitLine? s = some (line, rest)) (more : List Char) :
    splitLine? (s ++ more) = some (line, rest ++ more) := by
  fun_induction splitLine? s generalizing line with
  | case1 => cases h
  | case2 s =>
    obtain ⟨rfl, rfl⟩ := Prod.mk.inj (Option.some.inj h)
    rfl
  | case3 s =>
    obtain ⟨rfl, rfl⟩ := Prod.mk.inj (Option.some.inj h)
    rfl
  | case4 => cases h
  | case5 s hfeed hend =>
    obtain ⟨rfl, rfl⟩ := Prod.mk.inj (Option.some.inj h)
    obtain ⟨c, s, rfl⟩ := List.exists_cons_of_ne_nil hend
    have hc : c ≠ '\n' := fun heq ↦ hfeed s (heq ▸ rfl)
    simp [splitLine?, hc]
  | case6 c s hfeed _ _ hreturn ih =>
    obtain ⟨⟨line', rest'⟩, hsplit, heq⟩ := Option.map_eq_some_iff.1 h
    obtain ⟨rfl, rfl⟩ := Prod.mk.inj heq
    have hc : c ≠ '\n' := hfeed
    have hc' : c ≠ '\r' := hreturn
    simp [splitLine?, hc', ih hsplit]

theorem splitLines_of_none (h : splitLine? s = none) : splitLines s = ([], s) := by
  rw [splitLines]
  split
  · rfl
  · next heq =>
    rw [h] at heq
    cases heq

theorem splitLines_of_some (h : splitLine? s = some (line, rest)) :
    splitLines s = (line :: (splitLines rest).1, (splitLines rest).2) := by
  rw [splitLines]
  split
  · next heq =>
    rw [h] at heq
    cases heq
  · next heq =>
    rw [h] at heq
    obtain ⟨rfl, rfl⟩ := Prod.mk.inj (Option.some.inj heq)
    rfl

/-- What is left of a text is split with what follows. -/
theorem splitLines_append (s more : List Char) :
    splitLines (s ++ more) = ((splitLines s).1 ++ (splitLines ((splitLines s).2 ++ more)).1,
      (splitLines ((splitLines s).2 ++ more)).2) := by
  fun_induction splitLines s with
  | case1 s h => rfl
  | case2 s line rest h lines tail hrest ih =>
    rw [splitLines_of_some (splitLine?_append h more), ih, hrest]
    rfl

end

/-! ### Items -/

theorem Draft.addAll_append (d : Draft) (lines more : List (List Char)) :
    d.addAll (lines ++ more) =
      ((d.addAll lines).1 ++ ((d.addAll lines).2.addAll more).1, ((d.addAll lines).2.addAll more).2) := by
  induction lines generalizing d with
  | nil => rfl
  | cons line lines ih => simp only [List.cons_append, addAll, ih, List.append_assoc]

namespace Reader

variable {r next : Reader} {s : List UInt8} {items : List Item}

theorem take_append (r : Reader) (first second : Utf8.Decoded) :
    r.take { second with chars := first.chars ++ second.chars } =
      ((r.take first).1 ++ ((r.take first).2.take second).1, ((r.take first).2.take second).2) := by
  have hstarted : (r.started || !(first.chars ++ second.chars).isEmpty) =
      (r.started || !first.chars.isEmpty || !second.chars.isEmpty) := by
    cases first.chars <;> simp
  unfold take
  dsimp only
  rw [hstarted, ← List.append_assoc, splitLines_append]
  dsimp only
  rw [Draft.addAll_append]

/-- The first character of a stream decides, and it is in the first piece that has one. -/
theorem crashes_append (r : Reader) (first : Utf8.Decoded) (chars : List Char) :
    r.crashes (first.chars ++ chars) = (r.crashes first.chars || (r.take first).2.crashes chars) := by
  cases hchars : first.chars <;> simp [crashes, take, hchars]

theorem feed?_append (r : Reader) (s t : List UInt8) :
    r.feed? (s ++ t) = (r.feed? s).bind fun (items, r) ↦
      (r.feed? t).map fun (more, r) ↦ (items ++ more, r) := by
  unfold feed?
  dsimp only
  rw [← List.append_assoc, Utf8.decode_append]
  dsimp only
  rw [crashes_append, take_append]
  cases hfirst : r.crashes (Utf8.decode (r.octets ++ s)).chars with
  | true => rfl
  | false =>
    have hrest : (r.take (Utf8.decode (r.octets ++ s))).2.octets = (Utf8.decode (r.octets ++ s)).rest := rfl
    simp only [Bool.false_or, Bool.false_eq_true, if_false, Option.bind_some, hrest]
    split <;> rfl

/-- What a reader has taken once it need not take again. -/
theorem feed?_nil (h : r.feed? s = some (items, next)) : next.feed? [] = some ([], next) := by
  have happend := feed?_append r s []
  rw [List.append_nil, h, Option.bind_some] at happend
  obtain ⟨⟨more, last⟩, hnext, heq⟩ := Option.map_eq_some_iff.1 happend.symm
  obtain ⟨hmore, rfl⟩ := Prod.mk.inj heq
  rw [hnext, List.append_right_eq_self.1 hmore]

theorem started_of_feed?_eq_none (h : r.feed? s = none) : r.started = false := by
  have hcrashes : r.crashes (Utf8.decode (r.octets ++ s)).chars = true := by simpa [feed?] using h
  simp only [crashes, Bool.and_eq_true, Bool.not_eq_true'] at hcrashes
  exact hcrashes.1

/-- Nothing has been read of a stream that has not started. -/
def IsSound (r : Reader) : Prop := r.started = false → r.text = []

theorem isSound_start : IsSound {} := fun _ ↦ rfl

theorem IsSound.take (h : r.IsSound) {decoded : Utf8.Decoded}
    (hstarted : (r.take decoded).2.started = false) :
    (r.take decoded).1 = [] ∧ (r.take decoded).2.text = [] := by
  obtain ⟨hnew, hchars⟩ : r.started = false ∧ decoded.chars = [] := by simpa [Reader.take] using hstarted
  have hlines : splitLines (r.text ++ decoded.chars) = ([], []) := by
    rw [h hnew, hchars]
    exact splitLines_of_none rfl
  simp [Reader.take, hlines, Draft.addAll]

theorem IsSound.feed? (h : r.IsSound) (hfeed : r.feed? s = some (items, next)) :
    next.IsSound ∧ (next.started = false → items = []) := by
  obtain ⟨-, heq⟩ := Option.ite_none_left_eq_some.1 hfeed
  obtain ⟨rfl, rfl⟩ := Prod.mk.inj (Option.some.inj heq)
  exact ⟨fun hstarted ↦ (h.take hstarted).2, fun hstarted ↦ (h.take hstarted).1⟩

end Reader

end AgentReply.EventStream
