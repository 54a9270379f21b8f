/-!
# TOML values

The values of a TOML document. A table is the list of its fields in the order in which they appear, each
key once.
-/

namespace AgentReply.Toml

inductive Value where
  | string (value : String)
  | integer (value : Int)
  /-- A floating point number, as it is written. -/
  | float (text : String)
  | boolean (value : Bool)
  /-- A date, a time or both, as it is written. -/
  | moment (text : String)
  | array (items : List Value)
  | table (fields : List (String × Value))
deriving Inhabited, Repr

abbrev Table := List (String × Value)

/-- The characters of a key that needs no quotes. -/
def isBareChar (c : Char) : Bool :=
  c.isAlphanum || c == '_' || c == '-'

/-- Control characters other than the tab; they may not stand in a document as they are. -/
def isControl (c : Char) : Bool :=
  (c.toNat < 0x20 && c != '\t') || c.toNat == 0x7F

end AgentReply.Toml
