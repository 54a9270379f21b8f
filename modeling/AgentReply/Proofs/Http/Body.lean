import AgentReply.Http.Body
import Mathlib.Data.List.Basic

/-!
# Bodies that arrive in pieces

The content of a body does not depend on how the body is cut.
-/

namespace AgentReply.Http.Body

def isOver : Body → Bool
  | .finished | .broken => true
  | _ => false

theorem feed_of_isOver {body : Body} (h : body.isOver = true) (s : List UInt8) :
    body.feed s = ([], body) := by
  cases body with
  | finished => simp [feed]
  | broken => simp [feed]
  | sized left => cases h
  | chunked phase => cases h
  | untilEnd => cases h

theorem feed_sized_append (left : ℕ) (s t : List UInt8) :
    (sized left).feed (s ++ t) =
      (((sized left).feed s).1 ++ (((sized left).feed s).2.feed t).1,
        (((sized left).feed s).2.feed t).2) := by
  by_cases hleft : left ≤ s.length
  · simp [feed, hleft, Nat.le_add_right_of_le hleft, List.take_append]
  · have hmore : left - s.length ≤ t.length ↔ left ≤ s.length + t.length := by omega
    have htaken : s.take left = s := List.take_of_length_le (Nat.le_of_not_le hleft)
    by_cases hends : left ≤ s.length + t.length
    · simp [feed, hleft, List.take_append, htaken, hmore, hends]
    · simp [feed, hleft, List.take_append, htaken, hmore, hends, Nat.sub_sub]

theorem feed_append (body : Body) (s t : List UInt8) :
    body.feed (s ++ t) =
      ((body.feed s).1 ++ ((body.feed s).2.feed t).1, ((body.feed s).2.feed t).2) := by
  induction s generalizing body with
  | nil =>
    cases body with
    | sized left => exact feed_sized_append left [] t
    | chunked phase => simp [feed]
    | untilEnd => simp [feed]
    | finished => simp [feed]
    | broken => simp [feed]
  | cons b s ih =>
    cases body with
    | sized left => exact feed_sized_append left (b :: s) t
    | chunked phase =>
      have hstep : ∀ s, (chunked phase).feed (b :: s) =
          ((if (chunkStep phase b).1 then b :: ((chunkStep phase b).2.feed s).1
            else ((chunkStep phase b).2.feed s).1), ((chunkStep phase b).2.feed s).2) := by
        intro s
        rw [feed]
      rw [List.cons_append, hstep, hstep, ih]
      cases (chunkStep phase b).1 <;> rfl
    | untilEnd => simp [feed]
    | finished => simp [feed]
    | broken => simp [feed]

end AgentReply.Http.Body
