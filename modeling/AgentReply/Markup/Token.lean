import AgentReply.Markup.Tag

/-!
# Tokens

`Token.scan` cuts a text into tags of the vocabulary and the runs of text between them. A token keeps
its characters, so a scanned text is the concatenation of its lexemes; `Token.locate` gives the place
of each in octets.
-/

namespace AgentReply

inductive Token where
  | tag (tag : Tag)
  | text (run : List Char)
deriving DecidableEq, Repr

namespace Token

def lexeme : Token → List Char
  | .tag t => t.lexeme
  | .text run => run

/-- Puts a character of text before a list of tokens: a run of text at its head grows. -/
def consChar (c : Char) : List Token → List Token
  | .text run :: rest => .text (c :: run) :: rest
  | tokens => .text [c] :: tokens

/-- The tokens of a text, from left to right. A `<` that begins no tag of the vocabulary is text. -/
def scan (v : Vocabulary) : List Char → List Token
  | [] => []
  | c :: s =>
    match _h : Tag.read? v (c :: s) with
    | some (t, rest) => .tag t :: scan v rest
    | none => consChar c (scan v s)
termination_by s => s.length
decreasing_by
  · exact Tag.length_of_read? ‹_›
  · simp

@[simp] theorem lexeme_tag (t : Tag) : (Token.tag t).lexeme = t.lexeme := rfl

@[simp] theorem lexeme_text (run : List Char) : (Token.text run).lexeme = run := rfl

@[simp] theorem scan_nil (v : Vocabulary) : scan v [] = [] := by
  simp [scan]

theorem flatMap_lexeme_consChar (c : Char) (tokens : List Token) :
    (consChar c tokens).flatMap lexeme = c :: tokens.flatMap lexeme := by
  unfold consChar
  split <;> simp

/-- Nothing of the text is lost or added by scanning. -/
theorem flatMap_lexeme_scan (v : Vocabulary) (s : List Char) : (scan v s).flatMap lexeme = s := by
  fun_induction scan v s with
  | case1 => rfl
  | case2 c s t rest h ih => simp [ih, Tag.eq_lexeme_append_of_read? h]
  | case3 c s h ih => simp [flatMap_lexeme_consChar, ih]

/-- A token with the octets at which it begins and ends. -/
structure Located where
  token : Token
  start : Nat
  stop : Nat

/-- The places of successive tokens, the first of which begins at `start`. -/
def locate (start : Nat) : List Token → List Located
  | [] => []
  | token :: rest =>
    let stop := start + Text.octetCount token.lexeme
    ⟨token, start, stop⟩ :: locate stop rest

@[simp] theorem locate_nil (start : Nat) : locate start [] = [] := rfl

end Token
end AgentReply
