/-!
# Watched values

A value that others watch: they see the value that was published last, and how often one was.
-/

namespace AgentReply

structure Watched (α : Type) where
  value : α
  count : Nat := 0
deriving DecidableEq, Repr

namespace Watched

variable {α : Type}

/-- Publishes a value, also one that is the same as before. -/
def publish (w : Watched α) (value : α) : Watched α :=
  ⟨value, w.count + 1⟩

/-- Publishes a value that differs from the last one. -/
def update [DecidableEq α] (w : Watched α) (value : α) : Watched α :=
  if w.value = value then w else w.publish value

@[simp] theorem value_publish (w : Watched α) (value : α) : (w.publish value).value = value := rfl

theorem update_of_eq [DecidableEq α] {w : Watched α} {value : α} (h : w.value = value) :
    w.update value = w :=
  if_pos h

theorem update_of_ne [DecidableEq α] {w : Watched α} {value : α} (h : w.value ≠ value) :
    w.update value = w.publish value :=
  if_neg h

@[simp] theorem value_update [DecidableEq α] (w : Watched α) (value : α) :
    (w.update value).value = value := by
  unfold update
  split
  · assumption
  · rfl

end Watched
end AgentReply
