import AgentReply.Markup.Token
import Mathlib.Data.List.TakeWhile

/-!
# Where tags begin and end

Which tags of a text are structure, and where each of them ends, is told from the tokens alone,
without the nodes. Inside a verbatim payload all is text but the closing tag of that payload. Any
other closing tag ends the innermost open tag of its name, and with it the tags inside that one. So
a tag ends with its own closing tag, with the closing tag of a tag around it, or not at all.
-/

namespace AgentReply.Token

/-! ### Tags that are structure -/

/-- The verbatim tag in whose payload one is behind a token, from the one before it. -/
def insideNext? (v : Vocabulary) : Option String → Token → Option String
  | inside, .text _ => inside
  | none, .tag t => if !t.closing && v.isVerbatim t.name then some t.name else none
  | some name, .tag t => if t.closing && t.name == name then none else some name

/-- The verbatim tag in whose payload some tokens end. -/
def inside? (v : Vocabulary) (inside : Option String) (tokens : List Token) : Option String :=
  tokens.foldl (insideNext? v) inside

/-- A token as it counts inside a verbatim payload: as text, unless it is the closing tag. -/
def countsAs : Option String → Token → Token
  | some name, .tag t => if t.closing && t.name == name then .tag t else .text t.lexeme
  | _, token => token

/-- The tokens with the tags inside verbatim payloads as text. -/
def structural (v : Vocabulary) : Option String → List Token → List Token
  | _, [] => []
  | inside, token :: rest =>
    token.countsAs inside :: structural v (insideNext? v inside token) rest

def opening? : Token → Option Tag
  | .tag t => if t.closing then none else some t
  | .text _ => none

def openings (tokens : List Token) : List Tag := tokens.filterMap opening?

/-! ### Tags that are open -/

/-- What a closing tag leaves of the names of the open tags, the innermost first: it ends the
innermost tag of its name and all tags inside that one. A stray one ends none. -/
def closeName (name : String) (names : List String) : List String :=
  if name ∈ names then (names.dropWhile fun n ↦ n != name).tail else names

def openNext (names : List String) : Token → List String
  | .text _ => names
  | .tag t => if t.closing then closeName t.name names else t.name :: names

/-- The names of the open tags behind some tokens, the innermost first. -/
def openNames (names : List String) (tokens : List Token) : List String :=
  tokens.foldl openNext names

/-- How a tag ends. -/
inductive Ending where
  /-- With its own closing tag. -/
  | own
  /-- With the closing tag of a tag around it. -/
  | enclosing
  /-- Not before the end of the text. -/
  | never
deriving DecidableEq, Repr

/-- Whether a token ends a tag: `outer` are the names of the open tags around the tag, and `inner`
those of the open tags inside it. -/
def ends? (name : String) (outer inner : List String) : Token → Option Ending
  | .text _ => none
  | .tag t =>
    if t.closing = false ∨ t.name ∈ inner then none
    else if t.name = name then some .own
    else if t.name ∈ outer then some .enclosing
    else none

/-- The tokens from behind an opening tag to the end of the tag, and how it ends. -/
def extent (name : String) (outer : List String) : List String → List Token → List Token × Ending
  | _, [] => ([], .never)
  | inner, token :: rest =>
    match token.ends? name outer inner with
    | some ending => ([], ending)
    | none =>
      let more := extent name outer (openNext inner token) rest
      (token :: more.1, more.2)

/-- A token that is mere text where tags of the given names are open: a text or a stray closing tag.
-/
def IsIdle (names : List String) : Token → Prop
  | .text _ => True
  | .tag t => t.closing = true ∧ t.name ∉ names

variable {v : Vocabulary} {inside : Option String} {name : String} {outer inner : List String}
  {token : Token} {t : Tag} {tokens rest : List Token}

theorem structural_append (a b : List Token) :
    structural v inside (a ++ b) =
      structural v inside a ++ structural v (inside? v inside a) b := by
  induction a generalizing inside with
  | nil => rfl
  | cons token a ih =>
    rw [List.cons_append, structural, structural, ih, List.cons_append]
    rfl

@[simp] theorem countsAs_text (inside : Option String) (run : List Char) :
    (text run).countsAs inside = .text run := by
  cases inside <;> rfl

@[simp] theorem lexeme_countsAs (inside : Option String) (token : Token) :
    (token.countsAs inside).lexeme = token.lexeme := by
  unfold countsAs
  split
  · split <;> rfl
  · rfl

theorem flatMap_lexeme_structural (v : Vocabulary) (inside : Option String) (tokens : List Token) :
    (structural v inside tokens).flatMap lexeme = tokens.flatMap lexeme := by
  induction tokens generalizing inside with
  | nil => rfl
  | cons token tokens ih =>
    rw [structural, List.flatMap_cons, List.flatMap_cons, ih, lexeme_countsAs]

theorem closeName_of_notMem {names : List String} (h : name ∉ names) :
    closeName name names = names :=
  if_neg h

theorem closeName_append_cons {passed : List String} (h : name ∉ passed) (outer : List String) :
    closeName name (passed ++ name :: outer) = outer := by
  have hpassed : ∀ n ∈ passed, (n != name) = true := by
    intro n hn
    rw [bne_iff_ne]
    rintro rfl
    exact h hn
  rw [closeName, if_pos (by simp), List.dropWhile_append_of_pos hpassed]
  simp

@[simp] theorem extent_nil (name : String) (outer inner : List String) :
    extent name outer inner [] = ([], .never) := rfl

theorem extent_of_ends {ending : Ending} (h : token.ends? name outer inner = some ending) :
    extent name outer inner (token :: rest) = ([], ending) := by
  rw [extent, h]

theorem extent_of_not_ends (h : token.ends? name outer inner = none) :
    extent name outer inner (token :: rest) =
      (token :: (extent name outer (openNext inner token) rest).1,
        (extent name outer (openNext inner token) rest).2) := by
  rw [extent, h]

theorem extent_isPrefix (name : String) (outer inner : List String) (tokens : List Token) :
    (extent name outer inner tokens).1 <+: tokens := by
  induction tokens generalizing inner with
  | nil => exact List.prefix_rfl
  | cons token tokens ih =>
    cases h : token.ends? name outer inner with
    | some ending =>
      rw [extent_of_ends h]
      exact List.nil_prefix
    | none =>
      rw [extent_of_not_ends h]
      exact List.cons_prefix_cons.2 ⟨rfl, ih _⟩

example : extent "thought" ["response"] [] (scan .standard "a<type>b</response>c".toList) =
    (scan .standard "a<type>b".toList, .enclosing) := by decide +kernel

theorem IsIdle.opening? {names : List String} (h : token.IsIdle names) : token.opening? = none := by
  cases token with
  | text run => rfl
  | tag t => exact if_pos h.1

theorem IsIdle.openNext {names : List String} (h : token.IsIdle names) (hsub : inner ⊆ names) :
    token.openNext inner = inner := by
  cases token with
  | text run => rfl
  | tag t =>
    rw [Token.openNext, if_pos h.1]
    exact closeName_of_notMem fun hmem ↦ h.2 (hsub hmem)

theorem IsIdle.ends? {names : List String} (h : token.IsIdle names) (hname : name ∈ names)
    (houter : outer ⊆ names) : token.ends? name outer inner = none := by
  cases token with
  | text run => rfl
  | tag t =>
    have hne : t.name ≠ name := fun heq ↦ h.2 (heq ▸ hname)
    have hnotMem : t.name ∉ outer := fun hmem ↦ h.2 (houter hmem)
    simp [Token.ends?, hne, hnotMem]

end AgentReply.Token
