import AgentReply.Url.Idna
import AgentReply.Url.Punycode

/-!
# Names in common scripts

A conversion of names that works without the tables of the library. It knows characters that stand for
themselves and capitals that stand for a small letter; a name with any other character is refused.
-/

namespace AgentReply.Idna

/-- Characters that stand for themselves, from the first to the last: ASCII without its capitals, small
letters of Western European, Greek and Cyrillic, kana, ideographs, Korean syllables and pictures. -/
def settledRanges : List (Nat × Nat) :=
  [(0x00, 0x40), (0x5B, 0x7F), (0xDF, 0xF6), (0xF8, 0xFF), (0x3B1, 0x3C9), (0x430, 0x45F),
    (0x3041, 0x3096), (0x30A1, 0x30FA), (0x30FC, 0x30FC), (0x4E00, 0x9FFF), (0xAC00, 0xD7A3),
    (0x1F300, 0x1F64F)]

/-- Capitals, from the first to the last, and how far behind them their small letters are. -/
def capitalRanges : List (Nat × Nat × Nat) :=
  [(0x41, 0x5A, 0x20), (0xC0, 0xD6, 0x20), (0xD8, 0xDE, 0x20), (0x391, 0x3A1, 0x20),
    (0x3A3, 0x3A9, 0x20), (0x400, 0x40F, 0x50), (0x410, 0x42F, 0x20)]

def isSettled (c : Char) : Bool :=
  settledRanges.any fun (first, last) ↦ first ≤ c.toNat && c.toNat ≤ last

/-- The character that a character stands for in a domain. -/
def form? (c : Char) : Option Char :=
  if isSettled c then some c
  else
    (capitalRanges.find? fun (first, last, _) ↦ first ≤ c.toNat && c.toNat ≤ last).map
      fun (_, _, distance) ↦ Char.ofNat (c.toNat + distance)

/-- A label in ASCII. A label that says it is encoded has to be so. -/
def asciiLabel? (label : List Char) : Option (List Char) :=
  match label with
  | 'x' :: 'n' :: '-' :: '-' :: encoded => do
    let decoded ← Url.Punycode.decode? encoded
    if decoded.any (!Url.Punycode.isBasic ·) && decoded.all isSettled &&
        Url.Punycode.encode decoded == encoded then some label
    else none
  | label =>
    if label.all Url.Punycode.isBasic then some label
    else some ('x' :: 'n' :: '-' :: '-' :: Url.Punycode.encode label)

def ascii? (name : List Char) : Option (List Char) := do
  let name ← name.mapM form?
  if name.any isForbidden then none
  else
    let labels ← (name.splitOn '.').mapM asciiLabel?
    some (['.'].intercalate labels)

/-- What stands in for the library where it is not at hand. -/
abbrev common : Idna := ⟨ascii?⟩

end AgentReply.Idna
