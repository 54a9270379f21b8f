import AgentReply.Proofs.Text.Items
import AgentReply.Url.Percent
import Mathlib.Data.List.Basic

/-!
# Encoded text is not encoded again

No set of characters that are encoded has the percent sign or a hexadecimal digit, so encoding leaves
nothing that would have to be encoded.
-/

namespace AgentReply.Url

variable {set : EncodeSet} {s : List Char} {c : Char}

def IsEncoded (set : EncodeSet) (s : List Char) : Prop := ∀ c ∈ s, set c = false

/-- The characters of which encoded octets are made. -/
def encodingChars : List Char := "%0123456789ABCDEF".toList

/-- An encoded octet is not a full stop in disguise, unless the octet is one. -/
theorem encodeOctet_eq (o : UInt8) : ∃ x y, encodeOctet o = ['%', x, y] ∧ x ∈ encodingChars ∧
    y ∈ encodingChars ∧ (o ≠ 0x2E → ¬(x = '2' ∧ y.toLower = 'e')) := by
  have hall : ∀ n < 256, upperHexDigit (n / 16) ∈ encodingChars ∧ upperHexDigit (n % 16) ∈ encodingChars ∧
      (n ≠ 0x2E → ¬(upperHexDigit (n / 16) = '2' ∧ (upperHexDigit (n % 16)).toLower = 'e')) := by
    decide +kernel
  obtain ⟨hx, hy, hdot⟩ := hall o.toNat o.toNat_lt
  refine ⟨_, _, rfl, hx, hy, fun ho ↦ hdot fun h ↦ ho ?_⟩
  exact UInt8.toNat_inj.1 h

theorem mem_encodeChar {d : Char} (h : d ∈ encodeChar set c) :
    d = c ∧ set c = false ∨ d ∈ encodingChars := by
  unfold encodeChar at h
  split at h
  · right
    obtain ⟨o, -, hd⟩ := List.mem_flatMap.1 h
    obtain ⟨x, y, heq, hx, hy, -⟩ := encodeOctet_eq o
    rw [heq] at hd
    simp only [List.mem_cons, List.not_mem_nil, or_false] at hd
    rcases hd with rfl | rfl | rfl
    · decide
    · exact hx
    · exact hy
  · next hset =>
    left
    exact ⟨List.mem_singleton.1 h, by simpa using hset⟩

theorem mem_percentEncode {d : Char} (h : d ∈ percentEncode set s) :
    d ∈ s ∧ set d = false ∨ d ∈ encodingChars := by
  obtain ⟨c, hc, hd⟩ := List.mem_flatMap.1 h
  rcases mem_encodeChar hd with ⟨rfl, hset⟩ | hd
  · exact .inl ⟨hc, hset⟩
  · exact .inr hd

theorem isEncoded_percentEncode (hset : ∀ d ∈ encodingChars, set d = false) (s : List Char) :
    IsEncoded set (percentEncode set s) := by
  intro d hd
  rcases mem_percentEncode hd with ⟨-, h⟩ | h
  · exact h
  · exact hset d h

theorem percentEncode_of_isEncoded (h : IsEncoded set s) : percentEncode set s = s := by
  induction s with
  | nil => rfl
  | cons c s ih =>
    rw [IsEncoded, List.forall_mem_cons] at h
    rw [percentEncode, List.flatMap_cons, encodeChar, if_neg (by simp [h.1])]
    exact congrArg (c :: ·) (ih h.2)

/-! ### The sets -/

/-- A printed character of ASCII. -/
def isGraphic (c : Char) : Bool := decide (0x20 < c.toNat) && decide (c.toNat ≤ 0x7E)

theorem isGraphic_of_fragmentSet (h : fragmentSet c = false) : isGraphic c = true := by
  simp only [fragmentSet, controlSet, Bool.or_eq_false_iff, decide_eq_false_iff_not] at h
  have hspace : c ≠ ' ' := by
    rintro rfl
    exact absurd h.2 (by decide)
  have hne : c.toNat ≠ 0x20 := fun heq ↦ hspace (Char.toNat_inj.1 heq)
  simp only [isGraphic, Bool.and_eq_true, decide_eq_true_eq]
  omega

theorem isGraphic_of_pathSet (h : pathSet c = false) : isGraphic c = true := by
  simp only [pathSet, Bool.or_eq_false_iff] at h
  exact isGraphic_of_fragmentSet h.1.1.1.1

theorem isGraphic_of_userinfoSet (h : userinfoSet c = false) : isGraphic c = true := by
  simp only [userinfoSet, Bool.or_eq_false_iff] at h
  exact isGraphic_of_pathSet h.1

theorem isGraphic_of_specialQuerySet (h : specialQuerySet c = false) : isGraphic c = true := by
  simp only [specialQuerySet, querySet, controlSet, Bool.or_eq_false_iff, decide_eq_false_iff_not] at h
  have hspace : c ≠ ' ' := by
    rintro rfl
    exact absurd h.1.2 (by decide)
  have hne : c.toNat ≠ 0x20 := fun heq ↦ hspace (Char.toNat_inj.1 heq)
  simp only [isGraphic, Bool.and_eq_true, decide_eq_true_eq]
  omega

end AgentReply.Url
