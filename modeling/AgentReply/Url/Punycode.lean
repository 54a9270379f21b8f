/-!
# Punycode

Labels of host names with letters beyond ASCII, written in ASCII. The characters beyond ASCII follow the
others as differences of code points and places, each a number with digits of varying weight that adapts
to the differences before it.
-/

namespace AgentReply.Url.Punycode

def digitChar (d : Nat) : Char :=
  if d < 26 then Char.ofNat (0x61 + d) else Char.ofNat (0x30 + d - 26)

def digitValue? (c : Char) : Option Nat :=
  if c.isLower then some (c.toNat - 0x61)
  else if c.isUpper then some (c.toNat - 0x41)
  else if c.isDigit then some (c.toNat - 0x30 + 26)
  else none

/-- The least value of a digit that does not end its number. -/
def threshold (weight bias : Nat) : Nat :=
  if weight ≤ bias then 1 else if bias + 26 ≤ weight then 26 else weight - bias

theorem threshold_mem (weight bias : Nat) :
    1 ≤ threshold weight bias ∧ threshold weight bias ≤ 26 := by
  unfold threshold
  split
  · omega
  · split <;> omega

def shrink (delta weight : Nat) : Nat × Nat :=
  if 455 < delta then shrink (delta / 35) (weight + 36) else (delta, weight)
termination_by delta
decreasing_by exact Nat.div_lt_self (by omega) (by omega)

/-- The bias after a difference, of which `count` have been written. -/
def adapt (delta count : Nat) (isFirst : Bool) : Nat :=
  let damped := if isFirst then delta / 700 else delta / 2
  let (delta, weight) := shrink (damped + damped / count) 0
  weight + 36 * delta / (delta + 38)

/-- The digits of a difference. -/
def digits (bias weight n : Nat) : List Char :=
  let t := threshold weight bias
  if n < t then [digitChar n]
  else digitChar (t + (n - t) % (36 - t)) :: digits bias (weight + 36) ((n - t) / (36 - t))
termination_by n
decreasing_by
  have := threshold_mem weight bias
  calc (n - threshold weight bias) / (36 - threshold weight bias)
      ≤ n - threshold weight bias := Nat.div_le_self _ _
    _ < n := by omega

structure State where
  written : List Char := []
  delta : Nat := 0
  bias : Nat := 72
  /-- The number of characters dealt with. -/
  done : Nat

/-- Passes a character while those of code point `code` are written. -/
def pass (basic code : Nat) (st : State) (c : Char) : State :=
  if c.toNat < code then { st with delta := st.delta + 1 }
  else if c.toNat == code then
    { written := st.written ++ digits st.bias 36 st.delta
      delta := 0
      bias := adapt st.delta (st.done + 1) (st.done == basic)
      done := st.done + 1 }
  else st

/-- Writes the characters of the given code points, which increase and begin at `next`. -/
def writeCodes (label : List Char) (basic : Nat) : (codes : List Nat) → (next : Nat) → State → State
  | [], _, st => st
  | code :: codes, next, st =>
    let st := { st with delta := st.delta + (code - next) * (st.done + 1) }
    let st := label.foldl (pass basic code) st
    writeCodes label basic codes (code + 1) { st with delta := st.delta + 1 }

def isBasic (c : Char) : Bool := c.toNat < 0x80

def encode (label : List Char) : List Char :=
  let basic := label.filter isBasic
  let codes := ((label.filter (!isBasic ·)).map Char.toNat).mergeSort.eraseReps
  let st := writeCodes label basic.length codes 0x80 { done := basic.length }
  basic ++ (if basic.isEmpty then [] else ['-']) ++ st.written

/-- Reads a difference; gives the digits after it. -/
def difference (bias weight factor value : Nat) : List Char → Option (Nat × List Char)
  | [] => none
  | c :: rest => do
    let d ← digitValue? c
    let t := threshold weight bias
    let value := value + d * factor
    if d < t then some (value, rest)
    else difference bias (weight + 36) (factor * (36 - t)) value rest

theorem length_of_difference {bias weight factor value n : Nat} {s rest : List Char}
    (h : difference bias weight factor value s = some (n, rest)) : rest.length < s.length := by
  induction s generalizing weight factor value with
  | nil => simp [difference] at h
  | cons c s ih =>
    cases hd : digitValue? c with
    | none => simp [difference, hd] at h
    | some d =>
      simp only [difference, hd, Option.bind_eq_bind, Option.bind_some] at h
      split at h
      · simp only [Option.some.injEq, Prod.mk.injEq] at h
        simp [← h.2]
      · have := ih h
        simp only [List.length_cons]
        omega

/-- Puts in the characters that differences stand for. -/
def insertCodes (label : List Char) (code place bias : Nat) (isFirst : Bool) (s : List Char) :
    Option (List Char) :=
  if s.isEmpty then some label
  else
    match _h : difference bias 36 1 0 s with
    | none => none
    | some (n, rest) =>
      let count := label.length + 1
      let code := code + (place + n) / count
      let place := (place + n) % count
      if code < 0xD800 || (0xDFFF < code && code < 0x110000) then
        insertCodes (label.insertIdx place (Char.ofNat code)) code (place + 1)
          (adapt n count isFirst) false rest
      else none
termination_by s.length
decreasing_by exact length_of_difference ‹_›

/-- The label that a text stands for. -/
def decode? (s : List Char) : Option (List Char) :=
  let after := (s.reverse.takeWhile (· != '-')).reverse
  let basic := (s.take (s.length - after.length)).dropLast
  if s.all isBasic then insertCodes basic 0x80 0 72 true after else none

end AgentReply.Url.Punycode
