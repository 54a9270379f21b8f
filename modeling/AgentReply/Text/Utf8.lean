/-!
# UTF-8

Decoding of octets that may be cut anywhere or be no UTF-8 at all. `decode` gives the characters up to
the first octet that does not belong, what is left, and why it stopped there.
-/

namespace AgentReply.Utf8

/-- Why decoding stopped. -/
inductive Stop where
  /-- All octets are decoded. -/
  | atEnd
  /-- So many octets begin no character. -/
  | invalid (length : Nat)
  /-- The octets may yet become a character. -/
  | incomplete
deriving DecidableEq, Repr

/-- The octets that follow a first octet, with the range of the first of them. -/
structure Lead where
  owed : Nat
  least : Nat
  greatest : Nat
  /-- The bits of the first octet that belong to the character. -/
  bits : Nat

def lead? (a : Nat) : Option Lead :=
  if a < 0x80 then some ⟨0, 0x80, 0xBF, a⟩
  else if 0xC2 ≤ a && a ≤ 0xDF then some ⟨1, 0x80, 0xBF, a - 0xC0⟩
  else if a == 0xE0 then some ⟨2, 0xA0, 0xBF, 0⟩
  else if a == 0xED then some ⟨2, 0x80, 0x9F, 0xD⟩
  else if 0xE1 ≤ a && a ≤ 0xEF then some ⟨2, 0x80, 0xBF, a - 0xE0⟩
  else if a == 0xF0 then some ⟨3, 0x90, 0xBF, 0⟩
  else if a == 0xF4 then some ⟨3, 0x80, 0x8F, 4⟩
  else if 0xF1 ≤ a && a ≤ 0xF3 then some ⟨3, 0x80, 0xBF, a - 0xF0⟩
  else none

/-- Takes the octets that a character still owes, `taken` octets after its first one. -/
def continuation (owed least greatest code taken : Nat) (s : List UInt8) :
    Except Stop (Char × List UInt8) :=
  match owed, s with
  | 0, s => .ok (Char.ofNat code, s)
  | _ + 1, [] => .error .incomplete
  | owed + 1, b :: s =>
    if least ≤ b.toNat && b.toNat ≤ greatest then
      continuation owed 0x80 0xBF (code * 0x40 + (b.toNat - 0x80)) (taken + 1) s
    else .error (.invalid taken)

/-- The character at the head of some octets. -/
def firstChar (a : UInt8) (s : List UInt8) : Except Stop (Char × List UInt8) :=
  match lead? a.toNat with
  | some lead => continuation lead.owed lead.least lead.greatest lead.bits 1 s
  | none => .error (.invalid 1)

theorem length_of_continuation {owed least greatest code taken : Nat} {s rest : List UInt8}
    {c : Char} (h : continuation owed least greatest code taken s = .ok (c, rest)) :
    rest.length ≤ s.length := by
  induction s generalizing owed least greatest code taken with
  | nil => cases owed <;> simp_all [continuation]
  | cons b s ih =>
    cases owed with
    | zero => simp_all [continuation]
    | succ owed =>
      simp only [continuation] at h
      split at h
      · have := ih h
        simp only [List.length_cons]
        omega
      · simp at h

theorem length_of_firstChar {a : UInt8} {s rest : List UInt8} {c : Char}
    (h : firstChar a s = .ok (c, rest)) : rest.length ≤ s.length := by
  unfold firstChar at h
  split at h
  · exact length_of_continuation h
  · simp at h

structure Decoded where
  chars : List Char
  rest : List UInt8
  stop : Stop

def decode : List UInt8 → Decoded
  | [] => ⟨[], [], .atEnd⟩
  | a :: s =>
    match _h : firstChar a s with
    | .ok (c, rest) =>
      let decoded := decode rest
      { decoded with chars := c :: decoded.chars }
    | .error stop => ⟨[], a :: s, stop⟩
termination_by s => s.length
decreasing_by
  have := length_of_firstChar ‹_›
  simp only [List.length_cons]
  omega

def decode? (octets : List UInt8) : Option String :=
  let decoded := decode octets
  if decoded.rest.isEmpty then some (String.ofList decoded.chars) else none

/-- The text of octets of which some may be no UTF-8: each run that is none becomes one character. -/
def decodeLossyChars (s : List UInt8) : List Char :=
  let decoded := decode s
  match decoded.stop with
  | .atEnd => decoded.chars
  | .incomplete => decoded.chars ++ ['\uFFFD']
  | .invalid length =>
    let rest := decoded.rest.drop (max 1 length)
    if _h : rest.length < s.length then decoded.chars ++ '\uFFFD' :: decodeLossyChars rest
    else decoded.chars
termination_by s.length
decreasing_by exact _h

def decodeLossy (s : List UInt8) : String := String.ofList (decodeLossyChars s)

def encode (s : List Char) : List UInt8 :=
  s.flatMap String.utf8EncodeChar

end AgentReply.Utf8
