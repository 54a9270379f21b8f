import AgentReply.Markup.Document
import AgentReply.Markup.Grouping

/-!
# Replies

A reply is a document seen by its keys. Envelopes are replaced by their children, collections become
lists of their items, and the occurrences of any other name are gathered under that name. The keys keep
the order in which they first appear. Text outside every tag is kept apart, with its place among the
entries.
-/

namespace AgentReply

/-- What stands under one key. -/
inductive Entry where
  | leaf (text : String) (complete : Bool)
  | nested (children : List Node) (complete : Bool)
  | sequence (items : List Node) (complete : Bool)
deriving DecidableEq, Repr

namespace Entry

def ofNode : Node → Entry
  | .leaf _ text complete => .leaf text complete
  | .branch _ children complete => .nested children complete

def toNode (name : String) : Entry → Node
  | .leaf text complete => .leaf name text complete
  | .nested children complete => .branch name children complete
  | .sequence items complete => .branch name items complete

def complete : Entry → Bool
  | .leaf _ complete => complete
  | .nested _ complete => complete
  | .sequence _ complete => complete

def text? : Entry → Option String
  | .leaf text _ => some text
  | _ => none

/-- The items of a sequence; any other entry has none. -/
def items : Entry → List Node
  | .sequence items _ => items
  | _ => []

/-- The children of a nested entry; any other entry has none. -/
def children : Entry → List Node
  | .nested children _ => children
  | _ => []

/-- Adds one more occurrence of the name. -/
def addNode (name : String) (n : Node) : Entry → Entry
  | .sequence items complete => .sequence (items ++ [n]) (complete && n.complete)
  | single => .sequence [single.toNode name, n] (single.complete && n.complete)

/-- Adds the items of one more collection of the name. -/
def addItems (more : List Node) (complete : Bool) : Entry → Entry
  | .sequence items soFar => .sequence (items ++ more) (soFar && complete)
  | other => other

def toJson : Entry → Json
  | .leaf text _ => .string text
  | .nested children _ => .object (Json.groupFields (Node.namedJson children))
  | .sequence items _ => .array (items.map Node.toJson)

@[simp] theorem complete_ofNode (n : Node) : (ofNode n).complete = n.complete := by
  cases n <;> rfl

@[simp] theorem toNode_ofNode (n : Node) : (ofNode n).toNode n.name = n := by
  cases n <;> rfl

end Entry

/-- A run of text outside every tag. -/
structure Untagged where
  text : String
  /-- The number of entries before it. -/
  entry : Nat
deriving DecidableEq, Repr

structure Reply where
  entries : List (String × Entry) := []
  untagged : List Untagged := []
deriving DecidableEq, Repr

namespace Reply

def keys (r : Reply) : List String := r.entries.map Prod.fst

def get? (r : Reply) (key : String) : Option Entry := r.entries.lookup key

def text? (r : Reply) (key : String) : Option String := (r.get? key).bind Entry.text?

def items (r : Reply) (key : String) : List Node := ((r.get? key).map Entry.items).getD []

/-- Changes the entry of a key that is there, or adds a new one. -/
def upsert (r : Reply) (key : String) (change : Entry → Entry) (new : Entry) : Reply :=
  if r.keys.contains key then
    { r with entries := r.entries.map fun (k, e) ↦ (k, if k == key then change e else e) }
  else { r with entries := r.entries ++ [(key, new)] }

/-- Adds an occurrence of a name, which makes a sequence of those that are there already. -/
def insertPlain (r : Reply) (n : Node) : Reply :=
  r.upsert n.name (Entry.addNode n.name n) (Entry.ofNode n)

/-- Adds the items of a collection, if it is one. -/
def insert (v : Vocabulary) (r : Reply) (n : Node) : Reply :=
  match if v.isEnvelope n.name then none else v.itemName? n.name with
  | some item =>
    let items := n.children.filter fun c ↦ c.name == item
    r.upsert n.name (Entry.addItems items n.complete) (.sequence items n.complete)
  | none => r.insertPlain n

mutual

/-- Adds a node. An envelope gives way to its children; if it has none yet, it is added with its text,
unless that is blank. -/
def absorb (v : Vocabulary) (r : Reply) : Node → Reply
  | .leaf name text complete =>
    if v.isEnvelope name then
      if Text.isBlankText text then r else r.insertPlain (.leaf name text complete)
    else r.insert v (.leaf name text complete)
  | .branch name children complete =>
    if v.isEnvelope name then r.absorbChildren v children else r.insert v (.branch name children complete)

def absorbChildren (v : Vocabulary) (r : Reply) : List Node → Reply
  | [] => r
  | n :: rest => (r.absorb v n).absorbChildren v rest

end

def addUntagged (r : Reply) (run : Loose) : Reply :=
  { r with untagged := r.untagged ++ [⟨run.text, r.entries.length⟩] }

/-- Adds top-level nodes, of which the first is node number `index`, each after the loose runs that
stand before it. -/
def absorbAll (v : Vocabulary) (r : Reply) (index : Nat) (loose : List Loose) : List Node → Reply
  | [] => loose.foldl addUntagged r
  | n :: rest =>
    let before := loose.takeWhile fun run ↦ run.afterNodes ≤ index
    let after := loose.dropWhile fun run ↦ run.afterNodes ≤ index
    absorbAll v ((before.foldl addUntagged r).absorb v n) (index + 1) after rest

def ofDocument (v : Vocabulary) (d : Document) : Reply :=
  absorbAll v {} 0 d.loose d.nodes

def parse (v : Vocabulary) (text : String) : Reply :=
  ofDocument v (Document.parse v text)

/-- True when every key has seen its closing tag. -/
def complete (r : Reply) : Bool := r.entries.all fun (_, e) ↦ e.complete

def isEmpty (r : Reply) : Bool := r.entries.isEmpty && r.untagged.isEmpty

/-- The untagged runs with line breaks between them. -/
def untaggedText? (r : Reply) : Option String :=
  if r.untagged.isEmpty then none
  else some ("\n".intercalate (r.untagged.map Untagged.text))

def untaggedKey : String := "untagged"

/-- The untagged text that has a field of its own in JSON: there is none if a tag has its key. -/
def untaggedField? (r : Reply) : Option String :=
  r.untaggedText?.filter fun _ ↦ !r.keys.contains untaggedKey

/-- The number of fields, which a writer is told before it gets them. -/
def fieldCount (r : Reply) : Nat := r.entries.length + if r.untaggedField?.isSome then 1 else 0

/-- The fields of the entries, of which the first is entry number `index`, with that of the untagged
text before entry number `place`, or behind all entries if there are no more than that. -/
def fields (untagged : Option String) (place index : Nat) :
    List (String × Entry) → List (String × Json)
  | [] => untaggedIf (place ≥ index)
  | (key, e) :: rest =>
    untaggedIf (index == place) ++ (key, e.toJson) :: fields untagged place (index + 1) rest
where
  untaggedIf (here : Bool) : List (String × Json) :=
    if here then (untagged.map fun text ↦ (untaggedKey, .string text)).toList else []

/-- The entries in order, with the untagged text before the entry that its first run precedes, unless a
tag has its key. -/
def toJson (r : Reply) : Json :=
  .object (fields r.untaggedField? ((r.untagged.head?.map Untagged.entry).getD 0) 0 r.entries)

@[simp] theorem keys_addUntagged (r : Reply) (run : Loose) : (r.addUntagged run).keys = r.keys :=
  rfl

end Reply
end AgentReply
