import AgentReply.Proofs.Text.Utf8
import AgentReply.Proofs.Url.Address
import AgentReply.Proofs.Url.Domain
import AgentReply.Url.Reader

/-!
# Hosts that are read again

The host of a URL that was read is in the form that reading keeps. Its written form ends where the port or
the path begins.
-/

namespace AgentReply

namespace Url

variable {s : List Char}

theorem percentDecode_of_notMem {octets : List UInt8} (h : (0x25 : UInt8) ∉ octets) :
    percentDecode octets = octets := by
  induction octets with
  | nil => rfl
  | cons a octets ih =>
    rw [List.mem_cons, not_or] at h
    rw [percentDecode, ih h.2]
    rintro b c rest rfl
    exact absurd rfl h.1

namespace Host

open Idna (IsDomain isDomainChar isDomain_of_toAscii? isDomain_of_decimal toNat_lt_of_isDomainChar
  ne_of_isDomainChar)

/-- A host that was read. -/
inductive IsHost [Idna] : Host → Prop where
  | domain {name : List Char} (h : IsDomain name) (hne : name ≠ []) (hnumber : endsInNumber name = false) :
    IsHost (.domain name)
  | ipv4 {address : ℕ} (h : address < 256 ^ 4) : IsHost (.ipv4 address)
  | ipv6 {pieces : List ℕ} (hlength : pieces.length = 8) (h : ∀ n ∈ pieces, n < 0x10000) :
    IsHost (.ipv6 pieces)

theorem isHost_of_parse [Idna] [LawfulIdna] {host : Host} (h : parse s = .ok host) : IsHost host := by
  unfold parse at h
  split at h
  · cases h
  · next inner =>
    split at h
    · cases hpieces : ipv6? inner.dropLast with
      | none => simp [hpieces] at h
      | some host' =>
        rw [hpieces] at h
        obtain rfl := Except.ok.inj h
        obtain ⟨pieces, rfl, hlength, hlt⟩ := ipv6?_lt hpieces
        exact .ipv6 hlength hlt
    · cases h
  · split at h
    · cases h
    · cases h
    · next name hne hname =>
      obtain ⟨text, -, hdomain⟩ := Option.bind_eq_some_iff.1 hname
      split at h
      · cases haddress : ipv4? name with
        | none => simp [haddress] at h
        | some host' =>
          rw [haddress] at h
          obtain rfl := Except.ok.inj h
          obtain ⟨address, hlt, rfl⟩ := ipv4?_lt haddress
          exact .ipv4 hlt
      · next hnumber =>
        obtain rfl := Except.ok.inj h
        refine .domain (isDomain_of_toAscii? hdomain) ?_ (by simpa using hnumber)
        rintro rfl
        exact hne rfl

/-! ### Domains and addresses of four octets -/

theorem parse_of_isDomain [Idna] {name : List Char} (h : IsDomain name) (hne : name ≠ []) :
    parse name =
      if endsInNumber name then (ipv4? name).elim (.error .invalidIpv4) .ok else .ok (.domain name) := by
  have hchars := h.chars
  have hdecode : Utf8.decode? (percentDecode (Utf8.encode name)) = some (String.ofList name) := by
    have hascii : ∀ c ∈ name, c.toNat < 0x80 := fun c hc ↦ toNat_lt_of_isDomainChar (hchars c hc)
    have hpercent : (0x25 : UInt8) ∉ Utf8.encode name := by
      rw [Utf8.encode_ascii hascii]
      intro hmem
      obtain ⟨c, hc, heq⟩ := List.mem_map.1 hmem
      have hcode := congrArg UInt8.toNat heq
      rw [UInt8.toNat_ofNat', Nat.mod_eq_of_lt (by have := hascii c hc; omega)] at hcode
      exact ne_of_isDomainChar (d := '%') (hchars c hc) (by decide) (Char.toNat_inj.1 hcode)
    rw [percentDecode_of_notMem hpercent, Utf8.decode?_encode]
  have hdomain : (Utf8.decode? (percentDecode (Utf8.encode name))).bind (fun s ↦ Idna.toAscii? s.toList) =
      some name := by
    rw [hdecode, Option.bind_some, String.toList_ofList, h.toAscii?_eq]
  unfold parse
  split
  · exact absurd rfl hne
  · exact absurd rfl (ne_of_isDomainChar (hchars '[' List.mem_cons_self) (by decide))
  · rw [hdomain]
    split
    · next heq => cases heq
    · next heq => exact absurd (Option.some.inj heq) hne
    · next heq => rw [Option.some.inj heq]

theorem isDomain_writeIpv4 [Idna] [LawfulIdna] (address : ℕ) : IsDomain (writeIpv4 address) := by
  refine isDomain_of_decimal fun c hc ↦ ?_
  rw [writeIpv4_eq] at hc
  rcases Text.mem_intercalate hc with rfl | ⟨part, hpart, hc⟩
  · exact .inr rfl
  · obtain ⟨n, -, rfl⟩ := List.mem_map.1 hpart
    exact .inl (Text.isDigit_of_mem_toDigits hc)

theorem parse_write [Idna] [LawfulIdna] {host : Host} (h : IsHost host) : parse host.write = .ok host := by
  cases h with
  | @domain name h hne hnumber => rw [write, parse_of_isDomain h hne, if_neg (by simp [hnumber])]
  | @ipv4 address h =>
    have hne : writeIpv4 address ≠ [] := by simp [writeIpv4]
    rw [write, parse_of_isDomain (isDomain_writeIpv4 address) hne, if_pos (endsInNumber_writeIpv4 address),
      ipv4?_writeIpv4 h]
    rfl
  | @ipv6 pieces hlength h =>
    rw [write, List.cons_append, parse, if_pos (by simp), List.dropLast_concat, ipv6?_writeIpv6 hlength h]
    rfl

/-! ### Where a host ends -/

/-- The characters of written hosts. -/
def isHostChar (c : Char) : Bool := isDomainChar c || c == '[' || c == ':' || c == ']'

theorem isHostChar_of_isHexChar {c : Char} (h : isHexChar c = true) : isHostChar c = true := by
  have hall : ∀ d ∈ "0123456789abcdef".toList, isHostChar d = true := by decide
  exact hall c (List.contains_iff_mem.1 h)

theorem IsHost.chars [Idna] [LawfulIdna] {host : Host} (h : IsHost host) :
    ∀ c ∈ host.write, isHostChar c = true := by
  cases h with
  | domain h => exact fun c hc ↦ by simp [isHostChar, h.chars c hc]
  | @ipv4 address _ => exact fun c hc ↦ by simp [isHostChar, (isDomain_writeIpv4 address).chars c hc]
  | ipv6 =>
    intro c hc
    rw [write, List.cons_append, List.mem_cons, List.mem_append, List.mem_singleton] at hc
    rcases hc with rfl | hc | rfl
    · decide
    · rcases mem_writeIpv6 hc with hc | rfl
      · exact isHostChar_of_isHexChar hc
      · decide
    · decide

theorem IsHost.write_ne_nil [Idna] {host : Host} (h : IsHost host) : host.write ≠ [] := by
  cases h with
  | domain _ hne => exact hne
  | ipv4 => simp [write, writeIpv4]
  | ipv6 => simp [write]

variable {port : Option (List Char)}

theorem splitPort_of_isDomain {name : List Char} (h : ∀ c ∈ name, isDomainChar c = true) :
    splitPort false (name ++ port.elim [] (':' :: ·)) = (name, port) := by
  induction name with
  | nil => cases port <;> rfl
  | cons c name ih =>
    rw [List.forall_mem_cons] at h
    have hcolon := ne_of_isDomainChar (d := ':') h.1 (by decide)
    have hbracket : (c == '[') = false := by simpa using ne_of_isDomainChar (d := '[') h.1 (by decide)
    rw [List.cons_append, splitPort, hbracket]
    simp [hcolon, ih h.2]

theorem splitPort_brackets {inner : List Char} (h : ']' ∉ inner) :
    splitPort true (inner ++ ']' :: port.elim [] (':' :: ·)) = (inner ++ [']'], port) := by
  induction inner with
  | nil => cases port <;> rfl
  | cons c inner ih =>
    rw [List.mem_cons, not_or] at h
    have hinside : (c == '[' || c != ']') = true := by simp [Ne.symm h.1]
    rw [List.cons_append, splitPort, Bool.true_and, hinside, ih h.2]
    simp

theorem splitPort_write [Idna] [LawfulIdna] {host : Host} (h : IsHost host) :
    splitPort false (host.write ++ port.elim [] (':' :: ·)) = (host.write, port) := by
  cases h with
  | domain h => exact splitPort_of_isDomain h.chars
  | @ipv4 address _ => exact splitPort_of_isDomain (isDomain_writeIpv4 address).chars
  | @ipv6 pieces _ _ =>
    have hbracket : ']' ∉ writeIpv6 pieces := fun hmem ↦ absurd (mem_writeIpv6 hmem) (by decide)
    rw [write, List.append_assoc, List.singleton_append, List.cons_append, splitPort]
    simp [splitPort_brackets hbracket]

end Host
end Url
end AgentReply
