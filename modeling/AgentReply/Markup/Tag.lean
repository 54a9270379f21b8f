import AgentReply.Markup.Vocabulary

/-!
# Tags

A tag is written `<name>` or `</name>`, with any case of the letters and any blank characters before
the `>`. It is kept as it was written, so that `Tag.lexeme` gives back its place in the source.
-/

namespace AgentReply

structure Tag where
  closing : Bool
  /-- The name as it was written. -/
  spelling : List Char
  /-- The blank characters between the name and the `>`. -/
  padding : List Char
deriving DecidableEq, Repr

namespace Tag

def isNameChar (c : Char) : Bool :=
  c.isAlphanum || c == '_' || c == '-'

def name (t : Tag) : String :=
  String.ofList (t.spelling.map Char.toLower)

def lexeme (t : Tag) : List Char :=
  '<' :: ((if t.closing then ['/'] else []) ++ t.spelling ++ t.padding ++ ['>'])

/-- Reads what follows `<` or `</` in a tag of the vocabulary. -/
def readName? (v : Vocabulary) (closing : Bool) (s : List Char) : Option (Tag × List Char) :=
  let afterName := s.dropWhile isNameChar
  match afterName.dropWhile Text.isBlank with
  | '>' :: rest =>
    let tag : Tag := ⟨closing, s.takeWhile isNameChar, afterName.takeWhile Text.isBlank⟩
    if tag.spelling ≠ [] ∧ v.isKnown tag.name then some (tag, rest) else none
  | _ => none

/-- Reads a tag of the vocabulary at the head of a text, and gives the text after it. -/
def read? (v : Vocabulary) : List Char → Option (Tag × List Char)
  | '<' :: '/' :: s => readName? v true s
  | '<' :: s => readName? v false s
  | _ => none

theorem append_of_readName? {v : Vocabulary} {closing : Bool} {s rest : List Char} {t : Tag}
    (h : readName? v closing s = some (t, rest)) :
    t.closing = closing ∧ s = t.spelling ++ t.padding ++ '>' :: rest := by
  simp only [readName?] at h
  split at h
  · next r hr =>
    split at h
    · simp only [Option.some.injEq, Prod.mk.injEq] at h
      obtain ⟨rfl, rfl⟩ := h
      refine ⟨rfl, ?_⟩
      rw [← hr, List.append_assoc, List.takeWhile_append_dropWhile,
        List.takeWhile_append_dropWhile]
    · simp at h
  · simp at h

/-- A tag is read exactly where its lexeme stands. -/
theorem eq_lexeme_append_of_read? {v : Vocabulary} {s rest : List Char} {t : Tag}
    (h : read? v s = some (t, rest)) : s = t.lexeme ++ rest := by
  simp only [read?] at h
  split at h
  · obtain ⟨hc, rfl⟩ := append_of_readName? h
    simp [lexeme, hc]
  · obtain ⟨hc, rfl⟩ := append_of_readName? h
    simp [lexeme, hc]
  · simp at h

theorem length_of_read? {v : Vocabulary} {s rest : List Char} {t : Tag}
    (h : read? v s = some (t, rest)) : rest.length < s.length := by
  rw [eq_lexeme_append_of_read? h]
  simp [lexeme]
  omega

end Tag
end AgentReply
