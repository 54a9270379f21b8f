import AgentReply.Markup.HoldBack
import AgentReply.Markup.Node
import AgentReply.Markup.Token

/-!
# Documents

A document is the forest of nodes that a text describes, with the text found outside every tag. Reading
never fails: a stray closing tag is text, the close of an outer tag ends the tags inside it, and what is
open at the end comes out as unfinished nodes. The tokens are taken one at a time by `Outline.take`; the
end of the text is dealt with by `Outline.finish`.
-/

namespace AgentReply

/-- A run of text outside every tag. -/
structure Loose where
  text : String
  /-- The number of top-level nodes before it. -/
  afterNodes : Nat
deriving DecidableEq, Repr

structure Document where
  nodes : List Node
  loose : List Loose
deriving DecidableEq, Repr

/-- A tag whose end has not been seen. -/
structure OpenTag where
  name : String
  /-- The source since the opening tag, as long as there is no child. -/
  payload : List Char := []
  children : List Node := []

namespace OpenTag

def extend (t : OpenTag) (lexeme : List Char) : OpenTag :=
  { t with payload := t.payload ++ lexeme }

def addChild (t : OpenTag) (n : Node) : OpenTag :=
  { t with children := t.children ++ [n] }

/-- The node of a tag with the given payload. Text between children is not kept. -/
def toNode (v : Vocabulary) (t : OpenTag) (payload : List Char) (complete : Bool) : Node :=
  match t.children with
  | [] =>
    let shown := if v.isVerbatim t.name then payload else Text.trim payload
    .leaf t.name (String.ofList shown) complete
  | children => .branch t.name children complete

/-- The node of a tag that ends with its own closing tag (`complete`) or with that of an outer tag. -/
def closed (v : Vocabulary) (t : OpenTag) (complete : Bool) : Node :=
  t.toNode v t.payload complete

def unfinished (v : Vocabulary) (t : OpenTag) : Node :=
  let shown :=
    if v.isVerbatim t.name then Vocabulary.withoutCloseFragment t.name t.payload
    else v.withoutFragment t.payload
  t.toNode v shown false

@[simp] theorem name_extend (t : OpenTag) (s : List Char) : (t.extend s).name = t.name := rfl

@[simp] theorem name_addChild (t : OpenTag) (n : Node) : (t.addChild n).name = t.name := rfl

@[simp] theorem children_addChild (t : OpenTag) (n : Node) :
    (t.addChild n).children = t.children ++ [n] := rfl

/-- Closes the innermost tag of a name and, as unfinished children, the tags inside it. Gives the node
and the tags around it; `none` if no tag of that name is open. -/
def closeNamed? (v : Vocabulary) (name : String) (inner : Option Node) :
    List OpenTag → Option (Node × List OpenTag)
  | [] => none
  | top :: outer =>
    let t := inner.elim top top.addChild
    if t.name = name then some (t.closed v true, outer)
    else closeNamed? v name (some (t.closed v false)) outer

/-- The node that holds all open tags at the end of the text, the innermost tag first. -/
def settle (v : Vocabulary) (inner : Option Node) : List OpenTag → Option Node
  | [] => inner
  | top :: outer => settle v (some ((inner.elim top top.addChild).unfinished v)) outer

end OpenTag

/-- What is known of a document after some of its tokens. -/
structure Outline where
  /-- The open tags, the innermost first. -/
  stack : List OpenTag := []
  nodes : List Node := []
  loose : List Loose := []
  /-- Text outside every tag since the last tag. -/
  pending : List Char := []

namespace Outline

/-- Adds a run of loose text, unless it is blank. -/
def addLoose (o : Outline) (run : List Char) : Outline :=
  match Text.trim run with
  | [] => o
  | shown => { o with loose := o.loose ++ [⟨String.ofList shown, o.nodes.length⟩] }

def flush (o : Outline) : Outline :=
  { o.addLoose o.pending with pending := [] }

/-- Adds characters to the innermost open tag or to the pending run. -/
def extend (o : Outline) (lexeme : List Char) : Outline :=
  match o.stack with
  | [] => { o with pending := o.pending ++ lexeme }
  | top :: outer => { o with stack := top.extend lexeme :: outer }

def addNode (o : Outline) (n : Node) : Outline :=
  match o.stack with
  | [] => { o with nodes := o.nodes ++ [n] }
  | top :: outer => { o with stack := top.addChild n :: outer }

/-- A tag that is no structure where it stands: text inside a tag, the end of a run outside. -/
def skip (o : Outline) (t : Tag) : Outline :=
  if o.stack.isEmpty then o.flush else o.extend t.lexeme

/-- Inside a verbatim payload, only the close of that payload is structure. -/
def ignores (v : Vocabulary) (o : Outline) (t : Tag) : Bool :=
  match o.stack with
  | [] => false
  | top :: _ => v.isVerbatim top.name && !(t.closing && top.name == t.name)

def take (v : Vocabulary) (o : Outline) : Token → Outline
  | .text run => o.extend run
  | .tag t =>
    if o.ignores v t then o.extend t.lexeme
    else if t.closing then
      match OpenTag.closeNamed? v t.name none o.stack with
      | some (node, outer) => { o with stack := outer }.addNode node
      | none => o.skip t
    else { o.flush with stack := ⟨t.name, [], []⟩ :: o.stack }

def finish (v : Vocabulary) (o : Outline) : Document :=
  let o := o.addLoose (v.withoutFragment o.pending)
  ⟨o.nodes ++ (OpenTag.settle v none o.stack).toList, o.loose⟩

end Outline

namespace Document

def ofTokens (v : Vocabulary) (tokens : List Token) : Document :=
  (tokens.foldl (Outline.take v) {}).finish v

def parse (v : Vocabulary) (text : String) : Document :=
  ofTokens v (Token.scan v text.toList)

end Document
end AgentReply
