/-!
# SHA-1

The digest of a message: twenty octets, computed block by block over five words.
-/

namespace AgentReply.Sha1

/-- The five words that every block changes. -/
structure State where
  a : UInt32 := 0x67452301
  b : UInt32 := 0xEFCDAB89
  c : UInt32 := 0x98BADCFE
  d : UInt32 := 0x10325476
  e : UInt32 := 0xC3D2E1F0

def rotate (x : UInt32) (bits : UInt32) : UInt32 := (x <<< bits) ||| (x >>> (32 - bits))

/-- The octets of a number, the highest one first. -/
def bigEndian (count n : Nat) : List UInt8 :=
  (List.range count).map fun i ↦ (n / Nat.pow 256 (count - 1 - i)).toUInt8

/-- A message filled up to whole blocks, with its length in bits at the end. -/
def pad (message : List UInt8) : List UInt8 :=
  let zeros := (119 - message.length % 64) % 64
  message ++ 0x80 :: List.replicate zeros 0 ++ bigEndian 8 (8 * message.length)

def words : List UInt8 → List UInt32
  | a :: b :: c :: d :: rest =>
    (a.toUInt32 <<< 24 ||| b.toUInt32 <<< 16 ||| c.toUInt32 <<< 8 ||| d.toUInt32) :: words rest
  | _ => []

/-- Extends a reversed list of words by `count` more. -/
def extend : (count : Nat) → List UInt32 → List UInt32
  | 0, ws => ws
  | count + 1, ws =>
    let w := ws.getD 2 0 ^^^ ws.getD 7 0 ^^^ ws.getD 13 0 ^^^ ws.getD 15 0
    extend count (rotate w 1 :: ws)

/-- What the words are mixed with in a round: a function of three of them and a constant. -/
def mixing (round : Nat) (s : State) : UInt32 × UInt32 :=
  if round < 20 then ((s.b &&& s.c) ||| (~~~s.b &&& s.d), 0x5A827999)
  else if round < 40 then (s.b ^^^ s.c ^^^ s.d, 0x6ED9EBA1)
  else if round < 60 then ((s.b &&& s.c) ||| (s.b &&& s.d) ||| (s.c &&& s.d), 0x8F1BBCDC)
  else (s.b ^^^ s.c ^^^ s.d, 0xCA62C1D6)

def step (s : State) (round : Nat) (word : UInt32) : State :=
  let (mixed, constant) := mixing round s
  ⟨rotate s.a 5 + mixed + s.e + constant + word, s.a, rotate s.b 30, s.c, s.d⟩

def rounds (s : State) (round : Nat) : List UInt32 → State
  | [] => s
  | word :: ws => rounds (step s round word) (round + 1) ws

def block (s : State) (ws : List UInt32) : State :=
  let t := rounds s 0 (extend 64 ws.reverse).reverse
  ⟨s.a + t.a, s.b + t.b, s.c + t.c, s.d + t.d, s.e + t.e⟩

def blocks (s : State) (ws : List UInt32) : State :=
  if _h : ws.length < 16 then s
  else blocks (block s (ws.take 16)) (ws.drop 16)
termination_by ws.length

def digest (message : List UInt8) : List UInt8 :=
  let s := blocks {} (words (pad message))
  [s.a, s.b, s.c, s.d, s.e].flatMap fun word ↦ bigEndian 4 word.toNat

end AgentReply.Sha1
