import AgentReply.Markup.Token

/-!
# The places of tokens

A cursor goes through a text from one `<` to the next and notes where tags and the runs of text between
them begin and end, all in octets. The tokens themselves are not kept: their places in the text are enough.
-/

namespace AgentReply

/-- A text behind its first so many octets. -/
def Text.dropOctets (n : Nat) : List Char → List Char
  | [] => []
  | c :: s => if n = 0 then c :: s else dropOctets (n - c.utf8Size) s

/-- Where a token begins and ends, and which one it is. -/
inductive Token.Place where
  | opening (name : String) (start stop : Nat)
  | closing (name : String) (start stop : Nat)
  | text (start stop : Nat)
deriving DecidableEq, Repr

/-- A tag that has been found. -/
structure Tag.Found where
  name : String
  closing : Bool
  stop : Nat

namespace Tag

/-- Finds a tag of the vocabulary that begins at octet `start`, from the text behind its `<` or `</`. -/
def findName? (v : Vocabulary) (start : Nat) (closing : Bool) (rest : List Char) : Option Found :=
  let spelling := rest.takeWhile isNameChar
  let nameLength := Text.octetCount spelling
  let name := String.ofList (spelling.map Char.toLower)
  let afterName := Text.dropOctets nameLength rest
  let padding := Text.octetCount afterName - Text.octetCount (Text.trimStart afterName)
  if nameLength = 0 then none
  else if !v.isKnown name then none
  else if (Text.dropOctets padding afterName).head? != some '>' then none
  else some ⟨name, closing, start + 1 + (if closing then 1 else 0) + nameLength + padding + 1⟩

/-- Finds a tag of the vocabulary that begins at octet `start`, from the text behind its `<`. -/
def find? (v : Vocabulary) (start : Nat) : List Char → Option Found
  | '/' :: rest => findName? v start true rest
  | rest => findName? v start false rest

/-- The place of a tag that begins at octet `start`. -/
def Found.place (t : Found) (start : Nat) : Token.Place :=
  if t.closing then .closing t.name start t.stop else .opening t.name start t.stop

end Tag

theorem Text.length_dropOctets_le (n : Nat) (s : List Char) : (dropOctets n s).length ≤ s.length := by
  induction s generalizing n with
  | nil => exact Nat.le_refl 0
  | cons c s ih =>
    rw [dropOctets]
    split
    · exact Nat.le_refl _
    · exact Nat.le_succ_of_le (ih _)

namespace Token

/-- The text from octet `start` to octet `stop`, if there is any. -/
def textBetween (start stop : Nat) : List Place :=
  if start < stop then [.text start stop] else []

/-- The places of the tokens in `rest`, which begins at the cursor, and of the text from `textStart` up to
there. -/
def placesFrom (v : Vocabulary) (cursor textStart : Nat) (rest : List Char) : List Place :=
  match _h : rest.dropWhile (· != '<') with
  | [] => textBetween textStart (cursor + Text.octetCount rest)
  | _ :: after =>
    let start := cursor + Text.octetCount (rest.takeWhile (· != '<'))
    match Tag.find? v start after with
    | some t =>
      textBetween textStart start ++ t.place start ::
        placesFrom v t.stop t.stop (Text.dropOctets (t.stop - (start + 1)) after)
    | none => placesFrom v (start + 1) textStart after
termination_by rest.length
decreasing_by
  all_goals
    have hsuffix := (List.dropWhile_suffix (fun c ↦ c != '<') (l := rest)).length_le
    rw [_h, List.length_cons] at hsuffix
  · exact Nat.lt_of_le_of_lt (Text.length_dropOctets_le _ _) hsuffix
  · exact hsuffix

def places (v : Vocabulary) (text : String) : List Place := placesFrom v 0 0 text.toList

end Token
end AgentReply
