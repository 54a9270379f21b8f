import AgentReply.Json.Error
import AgentReply.Text.Blank
import AgentReply.Text.Rest

/-!
# Scanning JSON

Words, numbers and strings at the head of a text. What is left of the text comes with a proof that it is
no longer than it was (`Text.Tail`) or shorter (`Text.Rest`). A fault keeps what is left of the text at
its place.
-/

namespace AgentReply.Json

open Text (Rest Tail length_lt_cons length_dropWhile_lt length_of_dropWhile)

/-- Something wrong before `rest`, or in its first `seen` octets. -/
structure Fault where
  cause : Cause
  rest : List Char
  seen : Nat := 0

/-- Reads a value at the head of a text. -/
abbrev Reader (α : Type) := (s : List Char) → Except Fault (α × Rest s)

def isBlank (c : Char) : Bool :=
  c == ' ' || c == '\n' || c == '\t' || c == '\r'

def skipBlank (s : List Char) : List Char := s.dropWhile isBlank

theorem length_of_skipBlank {s rest : List Char} {c : Char} (h : skipBlank s = c :: rest) :
    rest.length < s.length :=
  length_of_dropWhile h

/-- What is left after the first character that is not blank. -/
def pastBlank {s rest : List Char} {c : Char} (h : skipBlank s = c :: rest) : Rest s :=
  ⟨rest, length_of_skipBlank h⟩

/-- The fault at the next character, or `atEnd` where the text ends. -/
def faultAt (cause atEnd : Cause) : List Char → Fault
  | [] => ⟨atEnd, [], 0⟩
  | rest => ⟨cause, rest, 1⟩

def word : List Char → (s : List Char) → Except Fault (Tail s)
  | [], s => .ok (.whole s)
  | _ :: _, [] => .error ⟨.endInValue, [], 0⟩
  | w :: ws, c :: s =>
    if w = c then (word ws s).map (·.behind c)
    else .error ⟨.expectedWord, c :: s, 1⟩

/-! ### Numbers -/

def digit (c : Char) : Nat := c.toNat - '0'.toNat

def greatestSignificand : Nat := 0xFFFFFFFFFFFFFFFF

/-- Appends digits to a significand as long as it stays within bounds; gives the digits that no longer
fit. -/
def absorb (significand : Nat) : List Char → Nat × List Char
  | [] => (significand, [])
  | c :: digits =>
    let next := 10 * significand + digit c
    if next ≤ greatestSignificand then absorb next digits else (significand, c :: digits)

def greatestPower : Nat := 0x7FFFFFFF

/-- The value of the digits of a power of ten; where it grows out of bounds, the digits after that. -/
def power (value : Nat) : List Char → Except (List Char) Nat
  | [] => .ok value
  | c :: digits =>
    let next := 10 * value + digit c
    if next ≤ greatestPower then power next digits else .error digits

def signed (negative : Bool) (x : Binary64) : Binary64 :=
  if negative then x.neg else x

/-- The number `significand · 10^exponent`, when its text ends at `tail`. -/
def scaled (negative : Bool) (significand : Nat) (exponent : Int) (tail : List Char) :
    Except Fault Number :=
  match Binary64.ofDecimal? significand exponent with
  | some x => .ok (.binary (signed negative x))
  | none => .error ⟨.numberOutOfRange, tail, 0⟩

def powerPart (negative : Bool) (significand : Nat) (exponent : Int) (s : List Char) :
    Except Fault (Number × Tail s) :=
  let below := s.head? == some '-'
  let unsigned : Tail s := if below || s.head? == some '+' then .drop 1 s else .whole s
  let digits := unsigned.1.takeWhile Char.isDigit
  let tail := unsigned.andTail (.dropWhile Char.isDigit unsigned.1)
  if digits.isEmpty then .error (faultAt .invalidNumber .endInValue unsigned.1)
  else
    match power 0 digits with
    | .ok value =>
      let exponent := if below then exponent - value else exponent + value
      (scaled negative significand exponent tail.1).map (·, tail)
    | .error unread =>
      if significand ≠ 0 && !below then .error ⟨.numberOutOfRange, unread ++ tail.1, 0⟩
      else .ok (.binary (Binary64.zero negative), tail)

/-- Reads the power of ten of a number, if there is one. -/
def optionalPower (negative : Bool) (significand : Nat) (exponent : Int) (s : List Char) :
    Except Fault (Number × Tail s) :=
  match s with
  | 'e' :: s' | 'E' :: s' =>
    (powerPart negative significand exponent s').map fun (n, tail) ↦ (n, tail.behind _)
  | s => (scaled negative significand exponent s).map (·, .whole s)

def placesPart (negative : Bool) (significand : Nat) (exponent : Int) (s : List Char) :
    Except Fault (Number × Tail s) :=
  let places := s.takeWhile Char.isDigit
  let tail := Tail.dropWhile Char.isDigit s
  if places.isEmpty then .error (faultAt .invalidNumber .endInValue s)
  else
    let (significand, dropped) := absorb significand places
    let exponent := exponent - (places.length - dropped.length : Nat)
    (optionalPower negative significand exponent tail.1).map fun (n, last) ↦ (n, tail.andTail last)

/-- The number of an integer text: an integer as long as it is in range, but a negative zero is none. -/
def integer (negative : Bool) (value : Nat) (tail : List Char) : Except Fault Number :=
  if !negative then .ok (.integer value)
  else if 0 < value && value ≤ 0x8000000000000000 then .ok (.integer (-value))
  else scaled true value 0 tail

/-- Reads what follows the first digits of a number, of which `dropped` did not fit the significand. -/
def afterDigits (negative : Bool) (significand dropped : Nat) (s : List Char) :
    Except Fault (Number × Tail s) :=
  match s with
  | '.' :: s' =>
    (placesPart negative significand dropped s').map fun (n, tail) ↦ (n, tail.behind '.')
  | s =>
    if dropped = 0 && s.head? != some 'e' && s.head? != some 'E' then
      (integer negative significand s).map (·, .whole s)
    else optionalPower negative significand dropped s

def unsignedNumber (negative : Bool) : Reader Number := fun s ↦
  let digits := s.takeWhile Char.isDigit
  let tail := s.dropWhile Char.isDigit
  match h : digits.isEmpty with
  | true => .error (faultAt .invalidNumber .endInValue s)
  | false =>
    if digits.head? == some '0' && digits.length > 1 then
      .error ⟨.invalidNumber, digits.drop 1 ++ tail, 1⟩
    else
      let (significand, dropped) := absorb 0 digits
      (afterDigits negative significand dropped.length tail).map fun (n, ⟨rest, hr⟩) ↦
        (n, ⟨rest, Nat.lt_of_le_of_lt hr (length_dropWhile_lt h)⟩)

/-! ### Strings -/

def hexValue? (c : Char) : Option Nat :=
  if '0' ≤ c && c ≤ '9' then some (c.toNat - '0'.toNat)
  else if 'a' ≤ c && c ≤ 'f' then some (c.toNat - 'a'.toNat + 10)
  else if 'A' ≤ c && c ≤ 'F' then some (c.toNat - 'A'.toNat + 10)
  else none

/-- Reads four hexadecimal digits. Whatever four octets stand there are looked at. -/
def hexUnit (s : List Char) : Except Fault (Nat × Tail s) :=
  let fault : Fault :=
    if 4 ≤ Text.octetCount s then ⟨.invalidEscape, s, 4⟩ else ⟨.endInString, [], 0⟩
  match s with
  | a :: b :: c :: d :: _ =>
    match hexValue? a, hexValue? b, hexValue? c, hexValue? d with
    | some a, some b, some c, some d => .ok (((a * 16 + b) * 16 + c) * 16 + d, .drop 4 _)
    | _, _, _, _ => .error fault
  | _ => .error fault

/-- Reads what follows `\u`: a character, or a pair of surrogates. -/
def hexEscape (s : List Char) : Except Fault (Char × Tail s) := do
  let (unit, next) ← hexUnit s
  if 0xDC00 ≤ unit && unit ≤ 0xDFFF then .error ⟨.loneSurrogate, next.1, 0⟩
  else if unit < 0xD800 || 0xDBFF < unit then .ok (Char.ofNat unit, next)
  else
    match next.1.take 2 with
    | ['\\', 'u'] =>
      let next := next.andTail (.drop 2 next.1)
      let (low, last) ← hexUnit next.1
      if low < 0xDC00 || 0xDFFF < low then .error ⟨.loneSurrogate, last.1, 0⟩
      else
        .ok (Char.ofNat (0x10000 + (unit - 0xD800) * 0x400 + (low - 0xDC00)), next.andTail last)
    | '\\' :: _ => .error (faultAt .endOfHexEscape .endInString (next.1.drop 1))
    | _ => .error (faultAt .endOfHexEscape .endInString next.1)

def escaped (s : List Char) : Except Fault (Char × Rest s) :=
  match s with
  | '"' :: rest => .ok ('"', .first '"' rest)
  | '\\' :: rest => .ok ('\\', .first '\\' rest)
  | '/' :: rest => .ok ('/', .first '/' rest)
  | 'b' :: rest => .ok ('\x08', .first 'b' rest)
  | 'f' :: rest => .ok ('\x0c', .first 'f' rest)
  | 'n' :: rest => .ok ('\n', .first 'n' rest)
  | 'r' :: rest => .ok ('\r', .first 'r' rest)
  | 't' :: rest => .ok ('\t', .first 't' rest)
  | 'u' :: rest => (hexEscape rest).map fun (c, tail) ↦ (c, (Rest.first 'u' rest).andTail tail)
  | s => .error (faultAt .invalidEscape .endInString s)

def stringBody (s : List Char) : Except Fault (List Char × Rest s) :=
  match s with
  | [] => .error ⟨.endInString, [], 0⟩
  | '"' :: rest => .ok ([], .first '"' rest)
  | '\\' :: rest => do
    let (c, next) ← escaped rest
    let (cs, last) ← stringBody next.1
    .ok (c :: cs, (next.andRest last).behind '\\')
  | c :: rest =>
    if c.toNat < 0x20 then .error ⟨.controlCharacter, c :: rest, 1⟩
    else do
      let (cs, last) ← stringBody rest
      .ok (c :: cs, last.behind c)
termination_by s.length
decreasing_by
  · exact (next.behind '\\').2
  · exact length_lt_cons c rest

end AgentReply.Json
