import AgentReply.Channel.Span

/-!
# Backoff

A backoff says how long to wait before each attempt to connect again after a failure, and when to give
up. Attempts count from one; delays are in milliseconds.
-/

namespace AgentReply

inductive Backoff where
  | never
  | fixed (delay : Nat) (limit : Option Nat)
  | exponential (initial greatest : Nat) (limit : Option Nat)
deriving DecidableEq, Repr

namespace Backoff

def isWithin (limit : Option Nat) (attempt : Nat) : Bool :=
  1 ≤ attempt && limit.all fun greatest ↦ attempt ≤ greatest

def maxDoublings : Nat := 16

/-- How many times as long as the first delay one is that has been doubled, in 32 bits. -/
def factor (attempt : Nat) : UInt32 := 1 <<< UInt32.ofNat (min (attempt - 1) maxDoublings)

def doubling? (initial greatest : Span) (limit : Option Nat) (attempt : Nat) : Option Span :=
  if isWithin limit attempt then some (min (initial.times (factor attempt).toNat) greatest) else none

/-- The delay before an attempt; `none` to give up. -/
def delay? (b : Backoff) (attempt : Nat) : Option Nat :=
  match b with
  | .never => none
  | .fixed delay limit => if isWithin limit attempt then some delay else none
  | .exponential initial greatest limit =>
    (doubling? (.ofMilliseconds initial) (.ofMilliseconds greatest) limit attempt).map
      Span.milliseconds

def standard : Backoff := .exponential 500 30000 (some 10)

@[simp] theorem delay?_never (attempt : Nat) : never.delay? attempt = none := rfl

@[simp] theorem delay?_zero (b : Backoff) : b.delay? 0 = none := by
  cases b <;> simp [delay?, doubling?, isWithin]

end Backoff

/-- A rule for connecting again, whatever it is: the delay before an attempt, or `none` to give up. -/
structure RetryPolicy where
  delay? : Nat → Option Nat

namespace RetryPolicy

def ofBackoff (b : Backoff) : RetryPolicy := ⟨b.delay?⟩

instance : Coe Backoff RetryPolicy := ⟨ofBackoff⟩

end RetryPolicy
end AgentReply
