import AgentReply.Text.Blank
import AgentReply.Text.Utf8

/-!
# Charsets

The encodings that a text may be announced in. A mark of the byte order at the head of the octets wins
over what is announced and is no part of the text.
-/

namespace AgentReply

inductive Charset where
  | utf8
  | utf16 (bigEndian : Bool)
  | windows1252
deriving DecidableEq, Repr

namespace Charset

/-- The charset of a label; all Latin labels mean Windows-1252. -/
def ofLabel? (label : String) : Option Charset :=
  let label := Text.lowered label
  if ["utf-8", "utf8", "unicode-1-1-utf-8", "unicode11utf8", "unicode20utf8",
      "x-unicode20utf8"].contains label then some .utf8
  else if ["utf-16", "utf-16le", "csunicode", "iso-10646-ucs-2", "ucs-2", "unicode",
      "unicodefeff"].contains label then some (.utf16 false)
  else if ["utf-16be", "unicodefffe"].contains label then some (.utf16 true)
  else if ["windows-1252", "cp1252", "x-cp1252", "iso-8859-1", "iso8859-1", "iso88591", "iso_8859-1",
      "iso_8859-1:1987", "iso-ir-100", "latin1", "l1", "csisolatin1", "ibm819", "cp819", "ascii",
      "us-ascii", "ansi_x3.4-1968"].contains label then some .windows1252
  else none

/-- The characters that Windows-1252 has in place of the control characters from 80 to 9F. -/
def windowsChars : List Nat :=
  [0x20AC, 0x81, 0x201A, 0x192, 0x201E, 0x2026, 0x2020, 0x2021, 0x2C6, 0x2030, 0x160, 0x2039, 0x152,
    0x8D, 0x17D, 0x8F, 0x90, 0x2018, 0x2019, 0x201C, 0x201D, 0x2022, 0x2013, 0x2014, 0x2DC, 0x2122,
    0x161, 0x203A, 0x153, 0x9D, 0x17E, 0x178]

def windowsChar (b : UInt8) : Char :=
  Char.ofNat <|
    if 0x80 ≤ b && b < 0xA0 then windowsChars.getD (b.toNat - 0x80) b.toNat else b.toNat

/-- The unit of sixteen bits that two octets make. -/
def unit (bigEndian : Bool) (a b : UInt8) : Nat :=
  if bigEndian then a.toNat * 0x100 + b.toNat else b.toNat * 0x100 + a.toNat

/-- The characters of units of sixteen bits. A surrogate without its partner and an octet without its
partner become a replacement character, at the end both together. -/
def utf16Chars (bigEndian : Bool) : List UInt8 → List Char
  | [] => []
  | [_] => ['\uFFFD']
  | a :: b :: rest =>
    let high := unit bigEndian a b
    if high < 0xD800 || 0xDFFF < high then Char.ofNat high :: utf16Chars bigEndian rest
    else if 0xDC00 ≤ high then '\uFFFD' :: utf16Chars bigEndian rest
    else
      match rest with
      | c :: d :: more =>
        let low := unit bigEndian c d
        if 0xDC00 ≤ low && low ≤ 0xDFFF then
          Char.ofNat (0x10000 + (high - 0xD800) * 0x400 + (low - 0xDC00)) ::
            utf16Chars bigEndian more
        else '\uFFFD' :: utf16Chars bigEndian (c :: d :: more)
      | _ => ['\uFFFD']

def decodeChars (s : List UInt8) : Charset → List Char
  | .utf8 => Utf8.decodeLossyChars s
  | .utf16 bigEndian => utf16Chars bigEndian s
  | .windows1252 => s.map windowsChar

/-- The text of octets that were announced in a charset. -/
def decode (announced : Charset) (octets : List UInt8) : String :=
  String.ofList <|
    match octets with
    | 0xEF :: 0xBB :: 0xBF :: s => utf8.decodeChars s
    | 0xFE :: 0xFF :: s => (utf16 true).decodeChars s
    | 0xFF :: 0xFE :: s => (utf16 false).decodeChars s
    | s => announced.decodeChars s

end Charset
end AgentReply
