import AgentReply.Number.Binary64
import AgentReply.Text.Rest
import AgentReply.Toml.Basic

/-!
# Scanning TOML

Keys, strings, numbers, dates and comments at the head of a text.
-/

namespace AgentReply.Toml

open Text (Rest Tail length_lt_cons length_dropWhile_lt)

/-- Reads a value at the head of a text. -/
abbrev Scan (α : Type) := (s : List Char) → Option (α × Rest s)

def isSpace (c : Char) : Bool := c == ' ' || c == '\t'

def skipSpace (s : List Char) : List Char := s.dropWhile isSpace

def mark? (mark : Char) (s : List Char) : Option (Rest s) :=
  match s with
  | c :: rest => if c = mark then some (.first c rest) else none
  | [] => none

def lineBreak? (s : List Char) : Option (Rest s) :=
  match s with
  | '\n' :: rest => some (.first '\n' rest)
  | '\r' :: '\n' :: rest => some ((Rest.first '\n' rest).behind '\r')
  | _ => none

/-- Takes a comment up to the end of its line, if there is one. -/
def skipComment (s : List Char) : Tail s :=
  match s with
  | '#' :: rest => (Tail.dropWhile (!isControl ·) rest).behind '#'
  | s => .whole s

/-- Takes spaces, a comment and the end of the line or text. -/
def endOfLine? (s : List Char) : Option (List Char) :=
  match (skipComment (skipSpace s)).1 with
  | [] => some []
  | tail => (lineBreak? tail).map Subtype.val

/-- Takes spaces, comments and line ends. A comment must have an end of its line. -/
def skipLines (s : List Char) : Option (Tail s) :=
  let spaces := Tail.dropWhile isSpace s
  let comment := spaces.andTail (skipComment spaces.1)
  match lineBreak? comment.1 with
  | some next =>
    let next := comment.andRest next
    (skipLines next.1).map (next.andTail · |>.toTail)
  | none => if spaces.1.head? == some '#' then none else some spaces
termination_by s.length
decreasing_by exact (comment.andRest _).2

/-! ### Strings -/

def hexValue? (c : Char) : Option Nat :=
  if '0' ≤ c && c ≤ '9' then some (c.toNat - '0'.toNat)
  else if 'a' ≤ c && c ≤ 'f' then some (c.toNat - 'a'.toNat + 10)
  else if 'A' ≤ c && c ≤ 'F' then some (c.toNat - 'A'.toNat + 10)
  else none

/-- The character of a code point in hexadecimal digits. -/
def codePoint? (digits : List Char) : Option Char := do
  let n ← digits.foldlM (fun n c ↦ (hexValue? c).map (16 * n + ·)) 0
  if n < 0xD800 || (0xDFFF < n && n < 0x110000) then some (Char.ofNat n) else none

def escaped? (s : List Char) : Option (Char × Rest s) :=
  match s with
  | 'b' :: rest => some ('\x08', .first 'b' rest)
  | 't' :: rest => some ('\t', .first 't' rest)
  | 'n' :: rest => some ('\n', .first 'n' rest)
  | 'f' :: rest => some ('\x0c', .first 'f' rest)
  | 'r' :: rest => some ('\r', .first 'r' rest)
  | '"' :: rest => some ('"', .first '"' rest)
  | '\\' :: rest => some ('\\', .first '\\' rest)
  | 'u' :: rest =>
    if rest.length < 4 then none
    else (codePoint? (rest.take 4)).map (·, (Rest.first 'u' rest).andTail (.drop 4 rest))
  | 'U' :: rest =>
    if rest.length < 8 then none
    else (codePoint? (rest.take 8)).map (·, (Rest.first 'U' rest).andTail (.drop 8 rest))
  | _ => none

def basicString? (s : List Char) : Option (List Char × Rest s) :=
  match s with
  | [] => none
  | '"' :: rest => some ([], .first '"' rest)
  | '\\' :: rest => do
    let (c, next) ← escaped? rest
    let (cs, last) ← basicString? next.1
    some (c :: cs, (next.andRest last).behind '\\')
  | c :: rest => do
    if isControl c then none
    let (cs, last) ← basicString? rest
    some (c :: cs, last.behind c)
termination_by s.length
decreasing_by
  · exact (next.behind '\\').2
  · exact length_lt_cons c rest

def literalString? (s : List Char) : Option (List Char × Rest s) :=
  match s with
  | [] => none
  | '\'' :: rest => some ([], .first '\'' rest)
  | c :: rest => do
    if isControl c then none
    let (cs, last) ← literalString? rest
    some (c :: cs, last.behind c)

/-- The number of quotes at the head of a text. -/
def quoteCount (mark : Char) (s : List Char) : Nat := (s.takeWhile (· == mark)).length

/-- The blanks and line ends that a backslash at the end of a line takes away. -/
def isFolded (c : Char) : Bool := isSpace c || c == '\n' || c == '\r'

/-- Reads a string over several lines after its opening quotes. Up to two quotes may stand in it, also
right before its closing ones. -/
def longString? (mark : Char) (s : List Char) : Option (List Char × Rest s) :=
  match s with
  | [] => none
  | c :: rest =>
    if c == mark then
      let count := quoteCount mark (c :: rest)
      if 5 < count then none
      else if 3 ≤ count then
        some (List.replicate (count - 3) mark, (Rest.first c rest).andTail (.drop (count - 1) rest))
      else (longString? mark rest).map fun (cs, last) ↦ (c :: cs, last.behind c)
    else if c == '\\' && mark == '"' then
      match skipSpace rest with
      | '\n' :: _ | '\r' :: '\n' :: _ =>
        let next := Tail.dropWhile isFolded rest
        (longString? mark next.1).map fun (cs, last) ↦ (cs, (next.andRest last).behind c)
      | _ => do
        let (escaped, next) ← escaped? rest
        let (cs, last) ← longString? mark next.1
        some (escaped :: cs, (next.andRest last).behind c)
    else
      match lineBreak? (c :: rest) with
      | some next => (longString? mark next.1).map fun (cs, last) ↦ ('\n' :: cs, next.andRest last)
      | none =>
        if isControl c then none
        else (longString? mark rest).map fun (cs, last) ↦ (c :: cs, last.behind c)
termination_by s.length
decreasing_by
  · exact length_lt_cons c rest
  · exact Nat.lt_succ_of_le next.2
  · exact Nat.lt_succ_of_lt next.2
  · exact next.2
  · exact length_lt_cons c rest

/-- Takes a line end right after opening quotes, which does not count. -/
def dropFirstBreak (s : List Char) : Tail s :=
  match lineBreak? s with
  | some rest => rest.toTail
  | none => .whole s

def string? (s : List Char) : Option (String × Rest s) :=
  let long (mark : Char) (rest : List Char) : Option (String × Rest rest) :=
    let next := dropFirstBreak rest
    (longString? mark next.1).map fun (cs, last) ↦ (String.ofList cs, next.andRest last)
  match s with
  | '"' :: '"' :: '"' :: rest =>
    (long '"' rest).map fun (text, last) ↦ (text, ((last.behind '"').behind '"').behind '"')
  | '\'' :: '\'' :: '\'' :: rest =>
    (long '\'' rest).map fun (text, last) ↦ (text, ((last.behind '\'').behind '\'').behind '\'')
  | '"' :: rest =>
    (basicString? rest).map fun (cs, last) ↦ (String.ofList cs, last.behind '"')
  | '\'' :: rest =>
    (literalString? rest).map fun (cs, last) ↦ (String.ofList cs, last.behind '\'')
  | _ => none

/-! ### Keys -/

/-- Reads a key without dots. -/
def simpleKey? (s : List Char) : Option (String × Rest s) :=
  match s with
  | '"' :: rest =>
    (basicString? rest).map fun (cs, last) ↦ (String.ofList cs, last.behind '"')
  | '\'' :: rest =>
    (literalString? rest).map fun (cs, last) ↦ (String.ofList cs, last.behind '\'')
  | s =>
    match h : (s.takeWhile isBareChar).isEmpty with
    | true => none
    | false =>
      some (String.ofList (s.takeWhile isBareChar),
        ⟨s.dropWhile isBareChar, length_dropWhile_lt h⟩)

/-- Reads a key as the list of its parts. -/
def key? (s : List Char) : Option (List String × Rest s) := do
  let (part, next) ← simpleKey? s
  let next := next.andTail (.dropWhile isSpace next.1)
  match mark? '.' next.1 with
  | none => some ([part], next)
  | some dot =>
    let next := (next.andRest dot).andTail (.dropWhile isSpace dot.1)
    let (parts, last) ← key? next.1
    some (part :: parts, next.andRest last)
termination_by s.length
decreasing_by exact next.2

/-! ### Numbers and dates -/

/-- Digits with single underscores between them, to a base. -/
def digits? (base : Nat) (s : List Char) : Option (List Nat) :=
  let rec go (afterDigit : Bool) : List Char → Option (List Nat)
    | [] => if afterDigit then some [] else none
    | '_' :: rest => if afterDigit then go false rest else none
    | c :: rest => do
      let d ← hexValue? c
      if d < base then (go true rest).map (d :: ·) else none
  go false s

def ofDigits (base : Nat) (digits : List Nat) : Nat :=
  digits.foldl (fun n d ↦ base * n + d) 0

/-- The sign of a number and what follows it. -/
def unsigned (s : List Char) : Bool × List Char :=
  match s with
  | '-' :: rest => (true, rest)
  | '+' :: rest => (false, rest)
  | rest => (false, rest)

/-- Digits without a zero before other digits. -/
def wholeDigits? (s : List Char) : Option (List Nat) :=
  if s.head? == some '0' && s.length > 1 then none else digits? 10 s

def inRange (n : Int) : Option Value :=
  if -0x8000000000000000 ≤ n && n < 0x8000000000000000 then some (.integer n) else none

def integer? (s : List Char) : Option Value :=
  match s with
  | '0' :: 'x' :: rest => (digits? 16 rest).bind fun ds ↦ inRange (ofDigits 16 ds)
  | '0' :: 'o' :: rest => (digits? 8 rest).bind fun ds ↦ inRange (ofDigits 8 ds)
  | '0' :: 'b' :: rest => (digits? 2 rest).bind fun ds ↦ inRange (ofDigits 2 ds)
  | s =>
    let (negative, rest) := unsigned s
    (wholeDigits? rest).bind fun ds ↦
      let n : Int := ofDigits 10 ds
      inRange (if negative then -n else n)

def isTooLarge (significand : List Nat) (exponent : Int) : Bool :=
  let n := ofDigits 10 significand
  let magnitude := exponent + (toString n).length
  if n = 0 || magnitude < 300 then false
  else if 320 < magnitude then true
  else (Binary64.nearest? false (n * Binary64.power 10 exponent)
    (Binary64.power 10 (-exponent))).isNone

def float? (s : List Char) : Option Value :=
  let text := String.ofList s
  let (negative, rest) := unsigned s
  if rest == "inf".toList || rest == "nan".toList then some (.float text)
  else do
    let isPower (c : Char) : Bool := c == 'e' || c == 'E'
    let mantissa := rest.takeWhile (!isPower ·)
    let whole ← wholeDigits? (mantissa.takeWhile (· != '.'))
    let places ←
      match mantissa.dropWhile (· != '.') with
      | [] => some []
      | _ :: places => digits? 10 places
    let power ←
      match rest.dropWhile (!isPower ·) with
      | [] => some 0
      | _ :: power =>
        let (below, digits) := unsigned power
        (digits? 10 digits).map fun ds ↦ if below then -(ofDigits 10 ds : Int) else ofDigits 10 ds
    if !rest.any (fun c ↦ isPower c || c == '.') then none
    else if !negative && isTooLarge (whole ++ places) (power - places.length) then none
    else some (.float text)

/-- The number of exactly two or four digits. -/
def fixedDigits? (count : Nat) (s : List Char) : Option Nat :=
  if s.length = count && s.all Char.isDigit then
    some (s.foldl (fun n c ↦ 10 * n + (c.toNat - '0'.toNat)) 0)
  else none

def daysIn (year month : Nat) : Nat :=
  if month = 2 then
    if year % 4 == 0 && (year % 100 != 0 || year % 400 == 0) then 29 else 28
  else if month == 4 || month == 6 || month == 9 || month == 11 then 30
  else 31

def isDate (s : List Char) : Bool :=
  match fixedDigits? 4 (s.take 4), fixedDigits? 2 ((s.drop 5).take 2),
    fixedDigits? 2 (s.drop 8) with
  | some year, some month, some day =>
    s[4]? == some '-' && s[7]? == some '-' && 1 ≤ month && month ≤ 12 && 1 ≤ day &&
      day ≤ daysIn year month
  | _, _, _ => false

/-- A time of day, with a fraction of the second perhaps. -/
def isTime (s : List Char) : Bool :=
  let fraction := s.drop 8
  match fixedDigits? 2 (s.take 2), fixedDigits? 2 ((s.drop 3).take 2),
    fixedDigits? 2 ((s.drop 6).take 2) with
  | some hour, some minute, some second =>
    s[2]? == some ':' && s[5]? == some ':' && hour ≤ 23 && minute ≤ 59 && second ≤ 60 &&
      (fraction.isEmpty ||
        (fraction.head? == some '.' && fraction.length > 1 && (fraction.drop 1).all Char.isDigit))
  | _, _, _ => false

/-- A time of day with the distance from universal time perhaps. -/
def isZonedTime (s : List Char) : Bool :=
  let isZone (c : Char) : Bool := c == 'Z' || c == 'z' || c == '+' || c == '-'
  let zone := s.dropWhile (!isZone ·)
  let isOffset :=
    match zone with
    | [] => true
    | [c] => c == 'Z' || c == 'z'
    | c :: offset =>
      match fixedDigits? 2 (offset.take 2), fixedDigits? 2 (offset.drop 3) with
      | some hour, some minute =>
        c != 'Z' && c != 'z' && offset[2]? == some ':' && hour ≤ 23 && minute ≤ 59
      | _, _ => false
  isTime (s.takeWhile (!isZone ·)) && isOffset

def moment? (s : List Char) : Option Value :=
  let isDelimiter (c : Option Char) : Bool := c == some 'T' || c == some 't' || c == some ' '
  if isDate s || isTime s ||
      (isDate (s.take 10) && isDelimiter s[10]? && isZonedTime (s.drop 11)) then
    some (.moment (String.ofList s))
  else none

/-- The value of a word that is no string. -/
def wordValue? (s : List Char) : Option Value :=
  if s == "true".toList then some (.boolean true)
  else if s == "false".toList then some (.boolean false)
  else (integer? s).or ((float? s).or (moment? s))

def isWordChar (c : Char) : Bool :=
  c.isAlphanum || c == '_' || c == '-' || c == '+' || c == '.' || c == ':'

/-- Reads the time that may follow a date after a space. -/
def timeAfter? (date : List Char) (s : List Char) : Option (Rest s) :=
  match s with
  | ' ' :: rest =>
    if isDate date && isZonedTime (rest.takeWhile isWordChar) then
      some ((Rest.first ' ' rest).andTail (.dropWhile isWordChar rest))
    else none
  | _ => none

/-- Reads a value that is neither string nor array nor table. -/
def word? (s : List Char) : Option (Value × Rest s) :=
  match h : (s.takeWhile isWordChar).isEmpty with
  | true => none
  | false =>
    let word := s.takeWhile isWordChar
    let next : Rest s := ⟨s.dropWhile isWordChar, length_dropWhile_lt h⟩
    match timeAfter? word next.1 with
    | some last => some (.moment (String.ofList word), next.andRest last)
    | none => (wordValue? word).map (·, next)

end AgentReply.Toml
