import AgentReply.Http.Head

/-!
# Bodies of responses

Where a body ends is decided by the head: at once, after a number of octets, after the last of its
chunks, or where the connection ends.
-/

namespace AgentReply.Http

/-- What comes next in a body of chunks. -/
inductive ChunkPhase where
  /-- The size of a chunk, of which some digits have been read. -/
  | size (started : Bool) (soFar : Nat)
  | afterSize (size : Nat)
  | extension (size : Nat)
  | sizeEnd (size : Nat)
  | content (left : Nat)
  | contentReturn
  | contentEnd
  /-- The start of a line after the last chunk. -/
  | trailerStart
  | trailer
  | trailerEnd
  | lastEnd
deriving DecidableEq, Repr

inductive Body where
  | sized (left : Nat)
  | chunked (phase : ChunkPhase)
  | untilEnd
  | finished
  | broken
deriving DecidableEq, Repr

namespace Body

def hexValue? (b : UInt8) : Option Nat :=
  if 48 ≤ b && b ≤ 57 then some (b.toNat - 48)
  else if 97 ≤ b && b ≤ 102 then some (b.toNat - 87)
  else if 65 ≤ b && b ≤ 70 then some (b.toNat - 55)
  else none

def afterSize (size : Nat) (b : UInt8) : Body :=
  if isSpaceOctet b then .chunked (.afterSize size)
  else if b == 59 then .chunked (.extension size)
  else if b == 13 then .chunked (.sizeEnd size)
  else .broken

/-- Takes an octet of a body of chunks; tells whether it belongs to the content. -/
def chunkStep (phase : ChunkPhase) (b : UInt8) : Bool × Body :=
  let expect (octet : UInt8) (next : Body) : Bool × Body := (false, if b = octet then next else .broken)
  match phase with
  | .size started soFar =>
    match hexValue? b with
    | some digit =>
      let size := 16 * soFar + digit
      (false, if 0x10000000000000000 ≤ size then .broken else .chunked (.size true size))
    | none => (false, if started then afterSize soFar b else .broken)
  | .afterSize size => (false, afterSize size b)
  | .extension size =>
    (false,
      if b = 13 then .chunked (.sizeEnd size)
      else if b = 10 then .broken
      else .chunked (.extension size))
  | .sizeEnd size => expect 10 (.chunked (if size = 0 then .trailerStart else .content size))
  | .content left => (true, .chunked (if left ≤ 1 then .contentReturn else .content (left - 1)))
  | .contentReturn => expect 13 (.chunked .contentEnd)
  | .contentEnd => expect 10 (.chunked (.size false 0))
  | .trailerStart => (false, .chunked (if b = 13 then .lastEnd else .trailer))
  | .trailer => (false, .chunked (if b = 13 then .trailerEnd else .trailer))
  | .trailerEnd => expect 10 (.chunked .trailerStart)
  | .lastEnd => expect 10 .finished

/-- Takes octets and gives those that belong to the content. What follows the end is passed over. -/
def feed (body : Body) (s : List UInt8) : List UInt8 × Body :=
  match body with
  | .sized left => (s.take left, if left ≤ s.length then .finished else .sized (left - s.length))
  | .untilEnd => (s, .untilEnd)
  | .finished => ([], .finished)
  | .broken => ([], .broken)
  | .chunked phase =>
    match s with
    | [] => ([], .chunked phase)
    | b :: rest =>
      let (isContent, body) := chunkStep phase b
      let (content, body) := body.feed rest
      (if isContent then b :: content else content, body)
termination_by s.length

def finish : Body → Body
  | .untilEnd | .finished | .sized 0 => .finished
  | _ => .broken

def decimal? (text : String) : Option Nat :=
  let digits := text.toList
  if digits.isEmpty || !digits.all Char.isDigit then none
  else
    let n := digits.foldl (fun n c ↦ 10 * n + (c.toNat - '0'.toNat)) 0
    if n < 0x10000000000000000 then some n else none

def commaParts : List Char → List (List Char)
  | [] => [[]]
  | c :: s =>
    match commaParts s with
    | part :: parts => if c = ',' then [] :: part :: parts else (c :: part) :: parts
    | [] => [[c]]

def trimmedParts (octets : List UInt8) : List String :=
  (commaParts (textOf octets).toList).map fun part ↦ String.ofList (Text.trim part)

/-- The length that all the fields agree on. -/
def agreedLength? (values : List (List UInt8)) : Option Nat :=
  match (values.flatMap trimmedParts).mapM decimal? with
  | some (length :: more) => if more.all (· == length) then some length else none
  | _ => none

/-- The body that a head announces; `none` if the head contradicts itself. -/
def ofHead? (h : Head) : Option Body :=
  let codings := h.getAll "transfer-encoding"
  let lengths := h.getAll "content-length"
  if h.status == 101 || h.status == 204 || h.status == 304 then some .finished
  else
    match codings.getLast? with
    | some coding =>
      if h.minorVersion = 0 then none
      else if ((trimmedParts coding).getLast?.map Text.lowered) == some "chunked" then
        some (.chunked (.size false 0))
      else some .untilEnd
    | none =>
      if lengths.isEmpty then some .untilEnd
      else (agreedLength? lengths).map fun length ↦ if length = 0 then .finished else .sized length

end Body
end AgentReply.Http
