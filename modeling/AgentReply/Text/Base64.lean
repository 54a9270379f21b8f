/-!
# Base64

Octets as text: three octets become four characters, and equals signs stand where octets are missing.
-/

namespace AgentReply.Base64

def alphabet : List Char :=
  "ABCDEFGHIJKLMNOPQRSTUVWXYZabcdefghijklmnopqrstuvwxyz0123456789+/".toList

def digit (n : Nat) : Char := alphabet.getD (n % 64) '='

def encode : List UInt8 → List Char
  | a :: b :: c :: rest =>
    let n := a.toNat * 0x10000 + b.toNat * 0x100 + c.toNat
    [digit (n / 0x40000), digit (n / 0x1000), digit (n / 0x40), digit n] ++ encode rest
  | [a, b] =>
    let n := a.toNat * 0x10000 + b.toNat * 0x100
    [digit (n / 0x40000), digit (n / 0x1000), digit (n / 0x40), '=']
  | [a] =>
    let n := a.toNat * 0x10000
    [digit (n / 0x40000), digit (n / 0x1000), '=', '=']
  | [] => []

end AgentReply.Base64
