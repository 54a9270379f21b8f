/-!
# Binary floating point in 64 bits

Finite numbers of the binary64 format as a sign, a mantissa and a power of two, with exact arithmetic on
natural numbers: each operation takes the exact result to the nearest number of the format, a tie to the
even mantissa. Infinities are not represented; an operation whose result is too large gives `none`.
-/

namespace AgentReply

/-- The number `±mantissa · 2^exponent`. A mantissa below `2^52` goes with the least exponent. -/
structure Binary64 where
  negative : Bool
  mantissa : Nat
  exponent : Int
deriving DecidableEq, Repr

namespace Binary64

/-- A power of a base; with a negative exponent it is one. -/
def power (base : Nat) (exponent : Int) : Nat := Nat.pow base exponent.toNat

def leastExponent : Int := -1074

def greatestExponent : Int := 971

/-- A quotient rounded to the nearest integer, a tie to the even one. -/
def roundDiv (num den : Nat) : Nat :=
  let floor := num / den
  let rest := 2 * (num % den)
  if rest > den || (rest == den && floor % 2 == 1) then floor + 1 else floor

def zero (negative : Bool) : Binary64 := ⟨negative, 0, leastExponent⟩

def isZero (x : Binary64) : Bool := x.mantissa == 0

/-- The number nearest to `±num / den`, for a positive `den`. -/
def nearest? (negative : Bool) (num den : Nat) : Option Binary64 :=
  if num = 0 then some (zero negative)
  else
    let guess := max (Int.ofNat num.log2 - Int.ofNat den.log2 - 53) leastExponent
    let scaled (e : Int) : Nat := roundDiv (num * power 2 (-e)) (den * power 2 e)
    let floored := num * power 2 (-guess) / (den * power 2 guess)
    let exponent := if floored < power 2 53 then guess else guess + 1
    let mantissa := scaled exponent
    let x : Binary64 :=
      if mantissa = power 2 53 then ⟨negative, power 2 52, exponent + 1⟩
      else ⟨negative, mantissa, exponent⟩
    if x.exponent ≤ greatestExponent then some x else none

def ofNat? (n : Nat) : Option Binary64 := nearest? false n 1

def neg (x : Binary64) : Binary64 := { x with negative := !x.negative }

/-- The product with a number, rounded once. -/
def mul? (x y : Binary64) : Option Binary64 :=
  let e := x.exponent + y.exponent
  nearest? (x.negative != y.negative)
    (x.mantissa * y.mantissa * power 2 e) (power 2 (-e))

/-- The quotient by a number other than zero, rounded once. -/
def div? (x y : Binary64) : Option Binary64 :=
  let e := x.exponent - y.exponent
  nearest? (x.negative != y.negative) (x.mantissa * power 2 e) (y.mantissa * power 2 (-e))

def greatestTen : Nat := 308

/-- The product of a number with a power of ten. The power is itself rounded, and a power below
`10^-308` is taken in steps of `10^308`. -/
def scaleByTen? (x : Binary64) (exponent : Int) : Option Binary64 :=
  if exponent.natAbs ≤ greatestTen then
    (ofNat? (power 10 exponent.natAbs)).bind fun scale ↦
      if 0 ≤ exponent then x.mul? scale else x.div? scale
  else if x.isZero then some x
  else if 0 ≤ exponent then none
  else
    ((ofNat? (power 10 greatestTen)).bind x.div?).bind fun y ↦ y.scaleByTen? (exponent + greatestTen)
termination_by exponent.natAbs
decreasing_by simp only [greatestTen] at *; omega

def ofDecimal? (significand : Nat) (exponent : Int) : Option Binary64 :=
  (ofNat? significand).bind fun x ↦ x.scaleByTen? exponent

/-- A decimal number `digits · 10^exponent`. -/
structure Decimal where
  digits : Nat
  exponent : Int
deriving DecidableEq, Repr

namespace Decimal

def text (d : Decimal) : String := toString d.digits

/-- The power of ten of the leading digit. -/
def magnitude (d : Decimal) : Int := d.exponent + d.text.length - 1

/-- Compares with `n · 2^e`. -/
def compareBinary (d : Decimal) (n : Nat) (e : Int) : Ordering :=
  compare (d.digits * power 10 d.exponent * power 2 (-e))
    (n * power 2 e * power 10 (-d.exponent))

end Decimal

/-- The power of ten of the leading digit of a number other than zero. -/
def magnitude (x : Binary64) : Int :=
  let scale : Nat := 330
  let n := x.mantissa * power 2 x.exponent * power 10 scale / power 2 (-x.exponent)
  Int.ofNat (toString n).length - 1 - scale

/-- Whether a decimal reads back as the number: it lies between the midpoints to the two neighbours, the
midpoints themselves belonging to an even mantissa. -/
def readsBack (x : Binary64) (d : Decimal) : Bool :=
  let lower := if x.mantissa = power 2 52 && x.exponent != leastExponent then 1 else 2
  let least := d.compareBinary (4 * x.mantissa - lower) (x.exponent - 2)
  let greatest := d.compareBinary (4 * x.mantissa + 2) (x.exponent - 2)
  if x.mantissa % 2 == 0 then least != .lt && greatest != .gt else least == .gt && greatest == .lt

/-- The decimal of `n` digits that reads back and is nearest to the number, of two equally near the even
one. -/
def withDigits? (x : Binary64) (n : Nat) : Option Decimal :=
  let exponent := x.magnitude - n + 1
  let floor := x.mantissa * power 2 x.exponent * power 10 (-exponent) /
    (power 2 (-x.exponent) * power 10 exponent)
  let below : Decimal := ⟨floor, exponent⟩
  let above : Decimal :=
    if floor + 1 = power 10 n then ⟨power 10 (n - 1), exponent + 1⟩ else ⟨floor + 1, exponent⟩
  match x.readsBack below, x.readsBack above with
  | true, true =>
    let middle : Decimal := ⟨10 * floor + 5, exponent - 1⟩
    match middle.compareBinary x.mantissa x.exponent with
    | .lt => some above
    | .gt => some below
    | .eq => some (if floor % 2 == 0 then below else above)
  | true, false => some below
  | false, true => some above
  | false, false => none

/-- The decimal with the fewest digits that reads back as the number; seventeen are always enough. -/
def shortest (x : Binary64) : Decimal :=
  ((List.range 17).findSome? fun n ↦ x.withDigits? (n + 1)).getD ⟨0, 0⟩

/-- The digits of a decimal with a point and at least one place after it. -/
def positional (digits : List Char) (magnitude : Int) : List Char :=
  if magnitude < 0 then '0' :: '.' :: (List.replicate (-magnitude - 1).toNat '0' ++ digits)
  else
    let whole := digits.take (magnitude.toNat + 1)
    let zeros := List.replicate (magnitude.toNat + 1 - whole.length) '0'
    let places := digits.drop (magnitude.toNat + 1)
    whole ++ zeros ++ '.' :: (if places.isEmpty then ['0'] else places)

/-- The digits of a decimal with the power of ten written out. -/
def scientific (digits : List Char) (magnitude : Int) : List Char :=
  let sign := if magnitude < 0 then '-' else '+'
  let places := digits.drop 1
  digits.take 1 ++ (if places.isEmpty then [] else '.' :: places) ++
    'e' :: sign :: (toString magnitude.natAbs).toList

/-- The text of a number: the fewest digits that read back, written with a point where `isPositional`
holds of the power of ten of the leading digit. -/
def toText (isPositional : Int → Bool) (x : Binary64) : String :=
  let sign := if x.negative then ['-'] else []
  let body :=
    if x.isZero then ['0', '.', '0']
    else
      let d := x.shortest
      let digits := d.text.toList
      if isPositional d.magnitude then positional digits d.magnitude
      else scientific digits d.magnitude
  String.ofList (sign ++ body)

end Binary64
end AgentReply
