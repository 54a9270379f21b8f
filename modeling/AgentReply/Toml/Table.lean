import AgentReply.Toml.Basic

/-!
# Tables under construction

The header and the key-value lines of a document build its tables piece by piece. A table says how it
came about, because that decides what may still be added: one that a header has defined cannot be defined
again, and one made by a dotted key is only open to dotted keys.
-/

namespace AgentReply.Toml

/-- How a table came about. -/
structure Origin where
  /-- It has not been defined by a header of its own. -/
  implied : Bool
  /-- It was made by a dotted key. -/
  dotted : Bool

inductive Draft where
  /-- A value that nothing can be added to. -/
  | closed (value : Value)
  | table (origin : Origin) (fields : List (String × Draft))
  /-- The tables of an array of tables, the last one first. -/
  | tables (elements : List (List (String × Draft)))

namespace Draft

abbrev Fields := List (String × Draft)

mutual

def toValue : Draft → Value
  | .closed value => value
  | .table _ fields => .table (toTable fields)
  | .tables elements => .array (toTables elements).reverse

def toTable : List (String × Draft) → Table
  | [] => []
  | (key, draft) :: rest => (key, draft.toValue) :: toTable rest

def toTables : List (List (String × Draft)) → List Value
  | [] => []
  | fields :: rest => .table (toTable fields) :: toTables rest

end

def replace (key : String) (draft : Draft) : Fields → Fields
  | [] => []
  | (k, d) :: rest => if k = key then (k, draft) :: rest else (k, d) :: replace key draft rest

/-- Changes the table at the end of a path, where a missing table is made and an array of tables stands
for its last one. -/
def change (dotted : Bool) (edit : Origin → Fields → Option Fields) (origin : Origin)
    (fields : Fields) : (path : List String) → Option Fields
  | [] => edit origin fields
  | key :: path =>
    match fields.lookup key with
    | none => do
      let inner ← change dotted edit ⟨true, dotted⟩ [] path
      some (fields ++ [(key, .table ⟨true, dotted⟩ inner)])
    | some (.closed _) => none
    | some (.tables []) => none
    | some (.tables (last :: before)) => do
      let inner ← change dotted edit ⟨false, false⟩ last path
      some (replace key (.tables (inner :: before)) fields)
    | some (.table o inner) =>
      if dotted && !o.implied then none
      else do
        let inner ← change dotted edit o inner path
        some (replace key (.table o inner) fields)

/-- Adds a value under a dotted key to a table. -/
def addValue (path : List String) (key : String) (value : Value) (origin : Origin)
    (fields : Fields) : Option Fields :=
  change true (fun o inner ↦
    if o.dotted == path.isEmpty || (inner.lookup key).isSome then none
    else some (inner ++ [(key, .closed value)])) origin fields path

/-- Defines the table of a header; it may have been implied before. -/
def define (key : String) (_ : Origin) (fields : Fields) : Option Fields :=
  match fields.lookup key with
  | none => some (fields ++ [(key, .table ⟨false, false⟩ [])])
  | some (.table o inner) =>
    if o.implied && !o.dotted then some (replace key (.table ⟨false, false⟩ inner) fields)
    else none
  | some _ => none

/-- Adds a table to an array of tables. -/
def push (key : String) (_ : Origin) (fields : Fields) : Option Fields :=
  match fields.lookup key with
  | none => some (fields ++ [(key, .tables [[]])])
  | some (.tables elements) => some (replace key (.tables ([] :: elements)) fields)
  | some _ => none

/-- The table of an inline table, whose pairs stand for themselves. -/
def inline? (pairs : List (List String × String × Value)) : Option Value :=
  (pairs.foldlM (fun fields (path, key, value) ↦ addValue path key value ⟨true, false⟩ fields)
    []).map fun fields ↦ .table (toTable fields)

end Draft
end AgentReply.Toml
