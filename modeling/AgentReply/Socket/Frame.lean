import AgentReply.Socket.Digest

/-!
# Frames

A socket carries frames: two octets with flags, kind and length, a longer length or a mask if there is
one, and the payload.
-/

namespace AgentReply.Socket

inductive Opcode where
  | continuation
  | text
  | binary
  | close
  | ping
  | pong
deriving DecidableEq, Repr

namespace Opcode

def code : Opcode → Nat
  | .continuation => 0
  | .text => 1
  | .binary => 2
  | .close => 8
  | .ping => 9
  | .pong => 10

def ofCode? : Nat → Option Opcode
  | 0 => some .continuation
  | 1 => some .text
  | 2 => some .binary
  | 8 => some .close
  | 9 => some .ping
  | 10 => some .pong
  | _ => none

/-- Whether frames of a kind are about the connection and not part of a message. -/
def isControl : Opcode → Bool
  | .close | .ping | .pong => true
  | _ => false

@[simp] theorem ofCode?_code (o : Opcode) : ofCode? o.code = some o := by
  cases o <;> rfl

end Opcode

structure Frame where
  isFinal : Bool := true
  /-- Whether one of the reserved flags is set. -/
  reserved : Bool := false
  opcode : Opcode
  masked : Bool := false
  payload : List UInt8 := []
deriving DecidableEq, Repr

inductive FrameError where
  | unknownOpcode (code : Nat)
  | tooLong (length limit : Nat)
deriving DecidableEq, Repr

def maxFrameLength : Nat := 16777216

/-- The number that octets stand for, the highest one first. -/
def ofBigEndian (octets : List UInt8) : Nat :=
  octets.foldl (fun n b ↦ 256 * n + b.toNat) 0

/-- The number of octets in which a length follows the first two octets. -/
def lengthSize (short : Nat) : Nat :=
  if short = 126 then 2 else if short = 127 then 8 else 0

namespace Frame

def firstOctet (f : Frame) : UInt8 :=
  ((if f.isFinal then 0x80 else 0) + f.opcode.code).toUInt8

def lengthOctets (masked : Bool) (length : Nat) : List UInt8 :=
  let flag := if masked then 0x80 else 0
  if length < 126 then [(flag + length).toUInt8]
  else if length < 0x10000 then (flag + 126).toUInt8 :: Sha1.bigEndian 2 length
  else (flag + 127).toUInt8 :: Sha1.bigEndian 8 length

/-- A payload under a mask; masking it again gives the payload back. -/
def applyMask : (mask : List UInt8) → List UInt8 → List UInt8
  | m :: mask, b :: s => (b ^^^ m) :: applyMask (mask ++ [m]) s
  | _, s => s

/-- A frame as it is sent, under a mask if there is one. -/
def write (mask : Option (List UInt8)) (f : Frame) : List UInt8 :=
  f.firstOctet :: lengthOctets mask.isSome f.payload.length ++
    match mask with
    | some mask => mask ++ applyMask mask f.payload
    | none => f.payload

end Frame

/-- What stands before the payload of a frame. -/
structure FrameHeader where
  isFinal : Bool
  reserved : Bool
  code : Nat
  masked : Bool
  length : Nat

namespace FrameHeader

/-- Reads a header and what stands between it and the payload; `none` if more has to arrive. -/
def read? : List UInt8 → Option (FrameHeader × List UInt8)
  | first :: second :: rest =>
    let short := second.toNat % 0x80
    let masked := decide (0x80 ≤ second.toNat)
    let size := lengthSize short
    let skipped := size + if masked then 4 else 0
    let header : FrameHeader := {
      isFinal := decide (0x80 ≤ first.toNat)
      reserved := decide (first.toNat / 0x10 % 8 ≠ 0)
      code := first.toNat % 0x10
      masked := masked
      length := if size = 0 then short else ofBigEndian (rest.take size) }
    if rest.length < skipped then none else some (header, rest.drop skipped)
  | _ => none

theorem length_of_read? {s rest : List UInt8} {h : FrameHeader}
    (hs : read? s = some (h, rest)) : rest.length < s.length := by
  unfold read? at hs
  split at hs
  · simp only [Option.ite_none_left_eq_some, Option.some.injEq, Prod.mk.injEq] at hs
    rw [← hs.2.2]
    simp only [List.length_drop, List.length_cons]
    omega
  · simp at hs

end FrameHeader

namespace Frame

/-- Reads the frame at the head of what has arrived; `none` if more has to arrive. -/
def read (s : List UInt8) : Except FrameError (Option (Frame × List UInt8)) :=
  match FrameHeader.read? s with
  | none => .ok none
  | some (h, body) =>
    match Opcode.ofCode? h.code with
    | none => .error (.unknownOpcode h.code)
    | some opcode =>
      if maxFrameLength < h.length then .error (.tooLong h.length maxFrameLength)
      else if body.length < h.length then .ok none
      else .ok (some (⟨h.isFinal, h.reserved, opcode, h.masked, body.take h.length⟩,
        body.drop h.length))

theorem length_of_read {s rest : List UInt8} {f : Frame} (h : read s = .ok (some (f, rest))) :
    rest.length < s.length := by
  unfold read at h
  split at h
  · simp at h
  · next header body hs =>
    have := FrameHeader.length_of_read? hs
    split at h
    · simp at h
    · split at h
      · simp at h
      · split at h
        · simp at h
        · simp only [Except.ok.injEq, Option.some.injEq, Prod.mk.injEq] at h
          rw [← h.2, List.length_drop]
          omega

/-- What has arrived, in frames: those that are complete, what is left, and what is wrong with it. -/
structure Arrived where
  frames : List Frame
  rest : List UInt8
  error : Option FrameError

def readAll (s : List UInt8) : Arrived :=
  match _h : read s with
  | .error e => ⟨[], s, some e⟩
  | .ok none => ⟨[], s, none⟩
  | .ok (some (frame, rest)) =>
    let arrived := readAll rest
    { arrived with frames := frame :: arrived.frames }
termination_by s.length
decreasing_by exact length_of_read ‹_›

end Frame
end AgentReply.Socket
