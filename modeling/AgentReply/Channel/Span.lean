/-!
# Spans of time

A span of time counts nanoseconds, and its whole seconds have 64 bits. What would be longer is the
longest span.
-/

namespace AgentReply

/-- The nanoseconds of `2^64` seconds. -/
def Span.bound : Nat := 0x10000000000000000 * 1000000000

structure Span where
  nanoseconds : Nat
  lt_bound : nanoseconds < Span.bound
deriving DecidableEq, Repr

namespace Span

def longest : Span := ⟨bound - 1, by decide⟩

def ofNanoseconds (n : Nat) : Span := if h : n < bound then ⟨n, h⟩ else longest

def ofMilliseconds (n : Nat) : Span := ofNanoseconds (1000000 * n)

def milliseconds (s : Span) : Nat := s.nanoseconds / 1000000

def times (s : Span) (n : Nat) : Span := ofNanoseconds (s.nanoseconds * n)

instance : Min Span := ⟨fun s t ↦ if s.nanoseconds ≤ t.nanoseconds then s else t⟩

theorem nanoseconds_ofNanoseconds (n : Nat) :
    (ofNanoseconds n).nanoseconds = min n (bound - 1) := by
  unfold ofNanoseconds
  split
  · next h => exact (Nat.min_eq_left (Nat.le_sub_one_of_lt h)).symm
  · next h => exact (Nat.min_eq_right (Nat.le_trans (Nat.sub_le _ 1) (Nat.le_of_not_lt h))).symm

@[simp] theorem nanoseconds_times (s : Span) (n : Nat) :
    (s.times n).nanoseconds = min (s.nanoseconds * n) (bound - 1) :=
  nanoseconds_ofNanoseconds _

@[simp] theorem nanoseconds_min (s t : Span) :
    (min s t).nanoseconds = min s.nanoseconds t.nanoseconds := by
  change (if s.nanoseconds ≤ t.nanoseconds then s else t).nanoseconds = _
  split <;> omega

end Span
end AgentReply
