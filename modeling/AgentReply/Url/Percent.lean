import AgentReply.Text.Utf8

/-!
# Percent-encoding

A character that may not stand in some part of a URL is replaced by its UTF-8 octets, each as `%` and two
hexadecimal digits. Which characters those are depends on the part.
-/

namespace AgentReply.Url

/-- Characters of a part of a URL that have to be encoded. -/
abbrev EncodeSet := Char → Bool

/-- Control characters and everything beyond ASCII; always encoded. -/
def controlSet : EncodeSet := fun c ↦ c.toNat < 0x20 || 0x7E < c.toNat

def fragmentSet : EncodeSet := fun c ↦ controlSet c || " \"<>`".toList.contains c

def querySet : EncodeSet := fun c ↦ controlSet c || " \"#<>".toList.contains c

/-- The query of a URL with a special scheme. -/
def specialQuerySet : EncodeSet := fun c ↦ querySet c || c == '\''

def pathSet : EncodeSet := fun c ↦ fragmentSet c || c == '#' || c == '?' || c == '\x7b' || c == '\x7d'

def userinfoSet : EncodeSet := fun c ↦ pathSet c || "/:;=@[\\]^|".toList.contains c

def upperHexDigit (n : Nat) : Char := "0123456789ABCDEF".toList.getD n '0'

def encodeOctet (octet : UInt8) : List Char :=
  ['%', upperHexDigit (octet.toNat / 16), upperHexDigit (octet.toNat % 16)]

def encodeChar (set : EncodeSet) (c : Char) : List Char :=
  if set c then (String.utf8EncodeChar c).flatMap encodeOctet else [c]

def percentEncode (set : EncodeSet) (s : List Char) : List Char :=
  s.flatMap (encodeChar set)

@[simp] theorem percentEncode_nil (set : EncodeSet) : percentEncode set [] = [] := rfl

@[simp] theorem percentEncode_append (set : EncodeSet) (s t : List Char) :
    percentEncode set (s ++ t) = percentEncode set s ++ percentEncode set t := by
  simp [percentEncode]

def hexValue? (octet : UInt8) : Option Nat :=
  let n := octet.toNat
  if 0x30 ≤ n && n ≤ 0x39 then some (n - 0x30)
  else if 0x61 ≤ n && n ≤ 0x66 then some (n - 0x61 + 10)
  else if 0x41 ≤ n && n ≤ 0x46 then some (n - 0x41 + 10)
  else none

/-- Octets with every `%` and two hexadecimal digits replaced by the octet they stand for. -/
def percentDecode : List UInt8 → List UInt8
  | 0x25 :: a :: b :: rest =>
    match hexValue? a, hexValue? b with
    | some high, some low => UInt8.ofNat (16 * high + low) :: percentDecode rest
    | _, _ => 0x25 :: percentDecode (a :: b :: rest)
  | a :: rest => a :: percentDecode rest
  | [] => []

end AgentReply.Url
