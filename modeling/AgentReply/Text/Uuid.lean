import AgentReply.Json.Writer

/-!
# Random identifiers

The text of a universally unique identifier of version 4: 16 octets in hexadecimal digits, in which the
version and the variant are fixed.
-/

namespace AgentReply.Uuid

/-- The octets with the version and the variant set. -/
def marked (octets : List UInt8) : List UInt8 :=
  octets.mapIdx fun i octet ↦
    if i = 6 then octet % 16 + 64 else if i = 8 then octet % 64 + 128 else octet

def hexOf (octets : List UInt8) : String :=
  String.ofList (octets.flatMap fun octet ↦
    [Json.hexDigit (octet.toNat / 16), Json.hexDigit (octet.toNat % 16)])

def text (octets : List UInt8) : String :=
  let octets := marked octets
  let groups := [octets.take 4, (octets.drop 4).take 2, (octets.drop 6).take 2,
    (octets.drop 8).take 2, octets.drop 10]
  "-".intercalate (groups.map hexOf)

end AgentReply.Uuid
