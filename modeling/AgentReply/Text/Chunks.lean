/-!
# Chunks of a text

A text cut into pieces of a given number of characters, the last of which may be shorter.
-/

namespace AgentReply.Text

/-- The pieces of `size + 1` characters. -/
def chunksOfSucc (size : Nat) (s : List Char) : List (List Char) :=
  match s with
  | [] => []
  | c :: rest => (c :: rest.take size) :: chunksOfSucc size (rest.drop size)
termination_by s.length
decreasing_by simp only [List.length_drop, List.length_cons]; omega

/-- The pieces of `size` characters; a size of zero counts as one. -/
def chunks (s : String) (size : Nat) : List String :=
  (chunksOfSucc (size - 1) s.toList).map String.ofList

theorem flatten_chunksOfSucc (size : Nat) (s : List Char) :
    (chunksOfSucc size s).flatten = s := by
  fun_induction chunksOfSucc size s with
  | case1 => rfl
  | case2 c rest ih => simp [ih]

end AgentReply.Text
