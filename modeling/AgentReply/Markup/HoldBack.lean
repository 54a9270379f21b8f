import AgentReply.Markup.Tag

/-!
# Fragments of tags at the end of a text

While a text is still arriving its end may be the beginning of a tag, such as `</tho` or a lone `<`.
Such a fragment is held back: it is not shown as text before more of it is known.
-/

namespace AgentReply.Vocabulary

/-- The name of a tag as far as it has arrived, in lower case, from what follows the `<`. -/
def stem (fragment : List Char) : List Char :=
  (match fragment with
    | '/' :: name => name
    | name => name).map Char.toLower

/-- Whether `<` and then `fragment` may grow into a tag of the vocabulary. Once blank characters follow
the name, only the whole name will do. -/
def mayGrow (v : Vocabulary) (fragment : List Char) : Bool :=
  let name := Text.trimEnd (stem fragment)
  if name.length < (stem fragment).length then v.known.any fun known ↦ known.toList == name
  else v.known.any fun known ↦ name.isPrefixOf known.toList

/-- Whether `<` and then `fragment` may grow into the closing tag of `name`. -/
def mayGrowToClose (name : String) (fragment : List Char) : Bool :=
  (fragment.isEmpty || fragment.head? == some '/') && (stem fragment).isPrefixOf name.toList

/-- A text up to the first `<` whose remainder has no further `<` or `>` and passes `grows`. -/
def beforeFragment (grows : List Char → Bool) : List Char → List Char
  | [] => []
  | c :: s =>
    if c == '<' && s.all (fun d ↦ d != '<' && d != '>') && grows s then []
    else c :: beforeFragment grows s

/-- A text without a fragment of a tag at its end. -/
def withoutFragment (v : Vocabulary) (s : List Char) : List Char :=
  beforeFragment v.mayGrow s

/-- A text without a fragment of the closing tag of `name` at its end. -/
def withoutCloseFragment (name : String) (s : List Char) : List Char :=
  beforeFragment (mayGrowToClose name) s

@[simp] theorem beforeFragment_nil (grows : List Char → Bool) : beforeFragment grows [] = [] := rfl

theorem beforeFragment_isPrefix (grows : List Char → Bool) (s : List Char) :
    beforeFragment grows s <+: s := by
  induction s with
  | nil => exact List.prefix_rfl
  | cons c s ih =>
    simp only [beforeFragment]
    split
    · exact List.nil_prefix
    · exact List.cons_prefix_cons.2 ⟨rfl, ih⟩

end AgentReply.Vocabulary
