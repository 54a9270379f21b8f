import AgentReply.Text.Blank

/-!
# Vocabularies

A vocabulary says which tag names are structure and what kind of structure they are. Anything shaped
like a tag whose name is not known is plain text, so that inline code such as `a <b> c` survives.
-/

namespace AgentReply

/-- The tag names that count as structure. A name is kept trimmed and in lower case. -/
structure Vocabulary where
  known : List String
  /-- Names whose payload is kept as it is and never searched for tags. -/
  verbatim : List String := []
  /-- Names whose children are lifted to the top level of a reply. -/
  envelopes : List String := []
  /-- Collection names with the name of their items, the latest declaration first. -/
  collections : List (String × String) := []

namespace Vocabulary

def normalize (name : String) : String :=
  Text.lowered (Text.trimmed name)

/-- The vocabulary that knows `names` and nothing else. -/
def ofNames (names : List String) : Vocabulary where
  known := names.map normalize

def addVerbatim (v : Vocabulary) (name : String) : Vocabulary :=
  { v with known := normalize name :: v.known, verbatim := normalize name :: v.verbatim }

def addEnvelope (v : Vocabulary) (name : String) : Vocabulary :=
  { v with known := normalize name :: v.known, envelopes := normalize name :: v.envelopes }

def addCollection (v : Vocabulary) (name item : String) : Vocabulary :=
  { v with
    known := normalize name :: normalize item :: v.known
    collections := (normalize name, normalize item) :: v.collections }

def isKnown (v : Vocabulary) (name : String) : Bool :=
  v.known.contains name

def isVerbatim (v : Vocabulary) (name : String) : Bool :=
  v.verbatim.contains name

def isEnvelope (v : Vocabulary) (name : String) : Bool :=
  v.envelopes.contains name

def itemName? (v : Vocabulary) (name : String) : Option String :=
  v.collections.lookup name

/-- Every known name once, in increasing order. -/
def names (v : Vocabulary) : List String :=
  (v.known.mergeSort fun a b ↦ decide (a ≤ b)).eraseReps

@[simp] theorem isKnown_ofNames (names : List String) (name : String) :
    (ofNames names).isKnown name = (names.map normalize).contains name := rfl

@[simp] theorem isVerbatim_addVerbatim (v : Vocabulary) (name other : String) :
    (v.addVerbatim name).isVerbatim other = (other == normalize name || v.isVerbatim other) := by
  simp only [isVerbatim, addVerbatim, List.contains_cons]

@[simp] theorem isEnvelope_addEnvelope (v : Vocabulary) (name other : String) :
    (v.addEnvelope name).isEnvelope other = (other == normalize name || v.isEnvelope other) := by
  simp only [isEnvelope, addEnvelope, List.contains_cons]

/-- The agent reply format: reasoning tags, tool calls, tool results and artifacts, the whole in an
optional `<response>`. -/
def standard : Vocabulary :=
  ((((((ofNames
    ["observation", "mindspace", "thought", "reflection", "type", "result", "tool_calls",
      "artifacts", "tool_call_results", "tool", "name", "arguments", "artifact", "language",
      "identifier", "title", "content"]).addEnvelope "response").addVerbatim "content").addVerbatim
    "arguments").addCollection "artifacts" "artifact").addCollection
    "tool_calls" "tool").addCollection "tool_call_results" "tool"

instance : Inhabited Vocabulary := ⟨standard⟩

end Vocabulary
end AgentReply
