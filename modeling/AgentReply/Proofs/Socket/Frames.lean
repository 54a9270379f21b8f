import AgentReply.Socket.Message
import Mathlib.Data.List.Basic

/-!
# Frames that arrive in pieces

The frames on a socket do not depend on how what arrives is cut. They are read up to the first one that is
wrong.
-/

namespace AgentReply.Socket

variable {s : List UInt8}

theorem FrameHeader.read?_append {h : FrameHeader} {body : List UInt8} (hs : read? s = some (h, body))
    (more : List UInt8) : read? (s ++ more) = some (h, body ++ more) := by
  match s with
  | [] | [_] => cases hs
  | first :: second :: rest =>
    rw [read?, Option.ite_none_left_eq_some, Nat.not_lt] at hs
    obtain ⟨hlong, heq⟩ := hs
    obtain ⟨rfl, rfl⟩ := Prod.mk.inj (Option.some.inj heq)
    have hlong' : lengthSize (second.toNat % 0x80) ≤ rest.length := Nat.le_trans (Nat.le_add_right _ _) hlong
    rw [List.cons_append, List.cons_append, read?, List.length_append, if_neg (by omega),
      List.drop_append_of_le_length hlong, List.take_append_of_le_length hlong']

namespace Frame

variable {frame : Frame} {rest : List UInt8} {e : FrameError}

theorem read_append (h : read s = .ok (some (frame, rest))) (more : List UInt8) :
    read (s ++ more) = .ok (some (frame, rest ++ more)) := by
  unfold read at h ⊢
  split at h
  · cases h
  · next header body hheader =>
    rw [FrameHeader.read?_append hheader]
    dsimp only
    split at h
    · cases h
    · next opcode hopcode =>
      split at h
      · cases h
      · next hshort =>
        split at h
        · cases h
        · next hlong =>
          obtain ⟨rfl, rfl⟩ := Prod.mk.inj (Option.some.inj (Except.ok.inj h))
          rw [Nat.not_lt] at hlong
          rw [if_neg hshort, List.length_append, if_neg (by omega), List.take_append_of_le_length hlong,
            List.drop_append_of_le_length hlong]

theorem read_append_of_error (h : read s = .error e) (more : List UInt8) :
    read (s ++ more) = .error e := by
  unfold read at h ⊢
  split at h
  · cases h
  · next header body hheader =>
    rw [FrameHeader.read?_append hheader]
    dsimp only
    split at h
    · exact h
    · next opcode hopcode =>
      split at h
      · next hlong =>
        rw [if_pos hlong]
        exact h
      · split at h
        · cases h
        · cases h

theorem readAll_of_error (h : read s = .error e) : readAll s = ⟨[], s, some e⟩ := by
  rw [readAll]
  split
  · next heq =>
    rw [h] at heq
    rw [Except.error.inj heq]
  · next heq =>
    rw [h] at heq
    cases heq
  · next heq =>
    rw [h] at heq
    cases heq

theorem readAll_of_some (h : read s = .ok (some (frame, rest))) :
    readAll s = { readAll rest with frames := frame :: (readAll rest).frames } := by
  rw [readAll]
  split
  · next heq =>
    rw [h] at heq
    cases heq
  · next heq =>
    rw [h] at heq
    cases heq
  · next heq =>
    rw [h] at heq
    obtain ⟨rfl, rfl⟩ := Prod.mk.inj (Option.some.inj (Except.ok.inj heq))
    rfl

/-- What is left of what has arrived is read with what follows. -/
theorem readAll_append (h : (readAll s).error = none) (more : List UInt8) :
    readAll (s ++ more) =
      { readAll ((readAll s).rest ++ more) with
        frames := (readAll s).frames ++ (readAll ((readAll s).rest ++ more)).frames } := by
  fun_induction readAll s with
  | case1 s e he => cases h
  | case2 s hnone => rfl
  | case3 s frame rest hsome arrived ih => rw [readAll_of_some (read_append hsome more), ih h]; rfl

theorem readAll_append_of_error (h : (readAll s).error = some e) (more : List UInt8) :
    (readAll (s ++ more)).frames = (readAll s).frames ∧ (readAll (s ++ more)).error = some e := by
  fun_induction readAll s with
  | case1 s e' he =>
    obtain rfl := Option.some.inj h
    rw [readAll_of_error (read_append_of_error he more)]
    exact ⟨rfl, rfl⟩
  | case2 s hnone => cases h
  | case3 s frame rest hsome arrived ih =>
    obtain ⟨hframes, herror⟩ := ih h
    rw [readAll_of_some (read_append hsome more)]
    exact ⟨congrArg (frame :: ·) hframes, herror⟩

end Frame
end AgentReply.Socket
