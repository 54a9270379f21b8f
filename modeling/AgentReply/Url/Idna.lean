/-!
# Internationalized names

The domains of URLs are put in ASCII by a library of its own, whose tables of characters are no part of this
one. Reading URLs takes its conversion as it is given.
-/

namespace AgentReply

/-- The library for internationalized names. -/
class Idna where
  /-- The form of a domain in ASCII that a URL may have; `none` if there is no such form. -/
  toAscii? : List Char → Option (List Char)

namespace Idna

/-- The characters that no domain of a URL may have. -/
def isForbidden (c : Char) : Bool :=
  c.toNat ≤ 0x20 || c.toNat == 0x7F || "%#/:<>?@[\\]^|".toList.contains c

def isDomainChar (c : Char) : Bool := c.toNat < 0x80 && !isForbidden c

end Idna
end AgentReply
