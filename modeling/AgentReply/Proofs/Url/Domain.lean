import AgentReply.Url.Idna

/-!
# Domains that are read again

What reading URLs relies on of the conversion of names: it gives characters that a domain may have, it
leaves alone what it gave before, and it leaves alone numbers between dots, as addresses are written.
-/

namespace AgentReply

/-- The laws of the conversion of names. -/
class LawfulIdna [Idna] : Prop where
  /-- The form of a domain has no character that domains must not have. -/
  allowed : ∀ {s name : List Char}, Idna.toAscii? s = some name → ∀ c ∈ name, Idna.isDomainChar c = true
  /-- Converting a domain once more changes nothing. -/
  stable : ∀ {s name : List Char}, Idna.toAscii? s = some name → Idna.toAscii? name = some name
  /-- Digits and dots are in ASCII already. -/
  decimal : ∀ {s : List Char}, (∀ c ∈ s, c.isDigit = true ∨ c = '.') → Idna.toAscii? s = some s

namespace Idna

/-- A domain that was read. -/
structure IsDomain [Idna] (name : List Char) : Prop where
  chars : ∀ c ∈ name, isDomainChar c = true
  toAscii?_eq : toAscii? name = some name

theorem isDomain_of_toAscii? [Idna] [LawfulIdna] {s name : List Char} (h : toAscii? s = some name) :
    IsDomain name :=
  ⟨LawfulIdna.allowed h, LawfulIdna.stable h⟩

theorem isDomain_of_decimal [Idna] [LawfulIdna] {s : List Char}
    (h : ∀ c ∈ s, c.isDigit = true ∨ c = '.') : IsDomain s :=
  isDomain_of_toAscii? (LawfulIdna.decimal h)

theorem toNat_lt_of_isDomainChar {c : Char} (h : isDomainChar c = true) : c.toNat < 0x80 := by
  simp only [isDomainChar, Bool.and_eq_true, decide_eq_true_eq] at h
  exact h.1

theorem ne_of_isDomainChar {c d : Char} (h : isDomainChar c = true) (hd : isDomainChar d = false) :
    c ≠ d := by
  rintro rfl
  rw [h] at hd
  cases hd

end Idna
end AgentReply
