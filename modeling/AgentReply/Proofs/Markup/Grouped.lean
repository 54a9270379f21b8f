import AgentReply.Markup.Grouping
import AgentReply.Proofs.Markup.Node
import AgentReply.Proofs.Reply.Grouping

/-!
# What the JSON of a node tells

The JSON of a node tells neither which tags have been closed nor how children of different names are
mixed, and the name of the node stands outside of it. Everything else can be read off: a string is a
leaf and an object a branch, and since no node is written as a list, a list under a key is always the
list of all children of that name.
-/

namespace AgentReply

theorem eraseDups_replicate_append {name : String} {names : List String} {n : ℕ} (hn : n ≠ 0)
    (hname : name ∉ names) : (List.replicate n name ++ names).eraseDups = name :: names.eraseDups := by
  obtain ⟨k, rfl⟩ := Nat.exists_eq_succ_of_ne_zero hn
  rw [List.replicate_succ, List.cons_append, List.eraseDups_cons]
  congr 2
  rw [List.filter_append, List.filter_eq_nil_iff.2, List.nil_append, List.filter_eq_self]
  · intro other hother
    have hne : other ≠ name := by
      rintro rfl
      exact hname hother
    simpa using hne
  · intro other hother
    simp [List.eq_of_mem_replicate hother]

theorem eraseDups_flatMap_replicate {names : List String} (h : names.Nodup) {count : String → ℕ}
    (hcount : ∀ name ∈ names, count name ≠ 0) :
    (names.flatMap fun name ↦ List.replicate (count name) name).eraseDups = names := by
  induction names with
  | nil => rfl
  | cons name names ih =>
    obtain ⟨hname, hnames⟩ := List.nodup_cons.1 h
    have hrest := ih hnames fun other hother ↦ hcount other (List.mem_cons_of_mem _ hother)
    rw [List.flatMap_cons, eraseDups_replicate_append (hcount name List.mem_cons_self), hrest]
    intro hmem
    obtain ⟨other, hother, hreplicate⟩ := List.mem_flatMap.1 hmem
    exact hname (List.eq_of_mem_replicate hreplicate ▸ hother)

namespace Json

/-- What stands for the values of one key. -/
def ofGroup : List Json → Json
  | [x] => x
  | xs => .array xs

theorem groupFields_eq (fields : List (String × Json)) : groupFields fields =
    (fields.map Prod.fst).eraseDups.map fun key ↦
      (key, ofGroup ((fields.filter fun field ↦ field.1 == key).map Prod.snd)) := by
  have hvalues (key : String) : (fields.filterMap fun field ↦
      if field.1 == key then some field.2 else none) =
        (fields.filter fun field ↦ field.1 == key).map Prod.snd := by
    rw [← List.filterMap_eq_map, List.filterMap_filter]
    rfl
  unfold groupFields
  refine List.map_congr_left fun key _ ↦ ?_
  rw [← hvalues key]
  rfl

end Json

namespace Node

/-- The nodes of a name, in their order. -/
def named (nodes : List Node) (name : String) : List Node := nodes.filter fun n ↦ n.name == name

/-- Nodes with those of one name together, the names in the order in which they first appear. -/
def groupNamed (nodes : List Node) : List Node :=
  (nodes.map name).eraseDups.flatMap (named nodes)

mutual

/-- A node with the children grouped and all tags closed, at every depth. -/
def grouped : Node → Node
  | .leaf name text _ => .leaf name text true
  | .branch name children _ => .branch name (groupNamed (groupedAll children)) true

def groupedAll : List Node → List Node
  | [] => []
  | n :: rest => n.grouped :: groupedAll rest

end

/-- The same node under another name. -/
def withName (name : String) : Node → Node
  | .leaf _ text complete => .leaf name text complete
  | .branch _ children complete => .branch name children complete

mutual

/-- The node of a name whose JSON is given. What is not the JSON of a node is taken for an empty
branch. -/
def ofJson (name : String) : Json → Node
  | .string text => .leaf name text true
  | .object fields => .branch name (ofFields fields) true
  | _ => .branch name [] true

def ofFields : List (String × Json) → List Node
  | [] => []
  | (key, .array items) :: rest => ofItems key items ++ ofFields rest
  | (key, x) :: rest => ofJson key x :: ofFields rest

def ofItems (name : String) : List Json → List Node
  | [] => []
  | x :: rest => ofJson name x :: ofItems name rest

end

variable {n m : Node} {nodes : List Node} {name key : String}

theorem groupedAll_eq_map (nodes : List Node) : groupedAll nodes = nodes.map grouped := by
  induction nodes with
  | nil => rfl
  | cons n rest ih => simp [groupedAll, ih]

@[simp] theorem grouped_leaf (name text : String) (complete : Bool) :
    (leaf name text complete).grouped = .leaf name text true := by
  simp [grouped]

theorem grouped_branch (name : String) (children : List Node) (complete : Bool) :
    (branch name children complete).grouped = .branch name (groupNamed (children.map grouped)) true := by
  rw [grouped, groupedAll_eq_map]

@[simp] theorem name_grouped (n : Node) : n.grouped.name = n.name := by
  cases n <;> simp [grouped]

@[simp] theorem withName_name (n : Node) : n.withName n.name = n := by
  cases n <;> rfl

@[simp] theorem toJson_withName (name : String) (n : Node) : (n.withName name).toJson = n.toJson := by
  cases n <;> simp [withName, toJson]

/-! ### Groups -/

theorem named_map_grouped (nodes : List Node) (key : String) :
    named (nodes.map grouped) key = (named nodes key).map grouped := by
  simp [named, List.filter_map, Function.comp_def]

theorem named_ne_nil (h : key ∈ (nodes.map Node.name).eraseDups) : named nodes key ≠ [] := by
  obtain ⟨n, hn, rfl⟩ := List.mem_map.1 (List.mem_eraseDups.1 h)
  exact List.ne_nil_of_mem (List.mem_filter.2 ⟨hn, by simp⟩)

theorem map_name_named (nodes : List Node) (key : String) :
    (named nodes key).map Node.name = List.replicate (named nodes key).length key := by
  rw [List.eq_replicate_iff]
  refine ⟨by simp, ?_⟩
  intro name hname
  obtain ⟨n, hn, rfl⟩ := List.mem_map.1 hname
  simpa using (List.mem_filter.1 hn).2

theorem named_named_of_ne (h : name ≠ key) : named (named nodes name) key = [] := by
  simp only [named, List.filter_filter, List.filter_eq_nil_iff]
  intro n _
  simp only [Bool.and_eq_true, beq_iff_eq]
  rintro ⟨rfl, rfl⟩
  exact h rfl

theorem names_groupNamed (nodes : List Node) :
    ((groupNamed nodes).map Node.name).eraseDups = (nodes.map Node.name).eraseDups := by
  rw [groupNamed, List.map_flatMap]
  simp only [map_name_named]
  apply eraseDups_flatMap_replicate (nodup_eraseDups _)
  intro name hname
  exact fun hlength ↦ named_ne_nil hname (List.eq_nil_of_length_eq_zero hlength)

theorem named_append (nodes more : List Node) (key : String) :
    named (nodes ++ more) key = named nodes key ++ named more key :=
  List.filter_append ..

theorem named_named (nodes : List Node) (key : String) :
    named (named nodes key) key = named nodes key := by
  simp [named]

theorem named_flatMap_named (nodes : List Node) {names : List String} (hnodup : names.Nodup)
    (key : String) :
    named (names.flatMap (named nodes)) key = if key ∈ names then named nodes key else [] := by
  induction names with
  | nil => rfl
  | cons name names ih =>
    obtain ⟨hname, hnames⟩ := List.nodup_cons.1 hnodup
    rw [List.flatMap_cons, named_append, ih hnames]
    by_cases hkey : key = name
    · subst hkey
      simp [named_named, hname]
    · simp [named_named_of_ne (Ne.symm hkey), hkey]

theorem named_groupNamed (nodes : List Node) (key : String) :
    named (groupNamed nodes) key = named nodes key := by
  rw [groupNamed, named_flatMap_named nodes (nodup_eraseDups _)]
  split
  · rfl
  · next h =>
    symm
    apply List.filter_eq_nil_iff.2
    intro n hn heq
    exact h (List.mem_eraseDups.2 (List.mem_map.2 ⟨n, hn, by simpa using heq⟩))

/-! ### JSON -/

theorem toJson_ne_array (n : Node) (items : List Json) : n.toJson ≠ .array items := by
  cases n <;> simp [toJson]

theorem toJson_branch (name : String) (children : List Node) (complete : Bool) :
    (branch name children complete).toJson =
      .object ((children.map Node.name).eraseDups.map fun key ↦
        (key, Json.ofGroup ((named children key).map toJson))) := by
  have hvalues (key : String) : ((children.map fun n ↦ (n.name, n.toJson)).filter fun field ↦
      field.1 == key).map Prod.snd = (named children key).map toJson := by
    simp [named, List.filter_map, Function.comp_def]
  rw [toJson, namedJson_eq_map, Json.groupFields_eq, List.map_map]
  simp only [hvalues]
  rfl

/-- Neither the tags that are closed nor the places of the children among those of other names are
seen in the JSON. -/
theorem toJson_grouped (n : Node) : n.grouped.toJson = n.toJson := by
  induction n using Node.induction with
  | leaf name text complete => simp
  | branch name children complete ih =>
    have hnames : ((groupNamed (children.map grouped)).map Node.name).eraseDups =
        (children.map Node.name).eraseDups := by
      rw [names_groupNamed, List.map_map]
      simp [Function.comp_def]
    have hvalues (key : String) : (named (groupNamed (children.map grouped)) key).map toJson =
        (named children key).map toJson := by
      rw [named_groupNamed, named_map_grouped, List.map_map]
      refine List.map_congr_left fun n hn ↦ ?_
      exact ih n (List.mem_filter.1 hn).1
    rw [grouped_branch, toJson_branch, toJson_branch, hnames]
    simp only [hvalues]

theorem ofItems_eq_map (name : String) (items : List Json) :
    ofItems name items = items.map (ofJson name) := by
  induction items with
  | nil => simp [ofItems]
  | cons x rest ih => simp [ofItems, ih]

/-- A list is never a single node, so the nodes of a key are told by what stands there. -/
theorem ofFields_cons_ofGroup (key : String) (nodes : List Node) (rest : List (String × Json)) :
    ofFields ((key, Json.ofGroup (nodes.map toJson)) :: rest) =
      (nodes.map fun n ↦ ofJson key n.toJson) ++ ofFields rest := by
  match nodes with
  | [] => simp [Json.ofGroup, ofFields, ofItems]
  | [n] =>
    cases hn : n.toJson with
    | array items => exact absurd hn (toJson_ne_array n items)
    | _ => simp [Json.ofGroup, ofFields, hn]
  | n :: n' :: nodes => simp [Json.ofGroup, ofFields, ofItems_eq_map]

theorem ofFields_map_ofGroup (names : List String) (nodes : List Node) :
    ofFields (names.map fun key ↦ (key, Json.ofGroup ((named nodes key).map toJson))) =
      names.flatMap fun key ↦ (named nodes key).map fun n ↦ ofJson key n.toJson := by
  induction names with
  | nil => simp [ofFields]
  | cons key names ih => rw [List.map_cons, ofFields_cons_ofGroup, ih, List.flatMap_cons]

theorem ofJson_toJson (n : Node) (name : String) : ofJson name n.toJson = (n.withName name).grouped := by
  induction n using Node.induction generalizing name with
  | leaf own text complete => simp [ofJson, withName]
  | branch own children complete ih =>
    have hgroup (key : String) : ((named children key).map fun n ↦ ofJson key n.toJson) =
        named (children.map grouped) key := by
      rw [named_map_grouped]
      refine List.map_congr_left fun n hn ↦ ?_
      obtain ⟨hmem, hname⟩ := List.mem_filter.1 hn
      rw [ih n hmem key, ← beq_iff_eq.1 hname, withName_name]
    have hnames : (children.map grouped).map Node.name = children.map Node.name := by
      simp [Function.comp_def]
    rw [toJson_branch, ofJson, ofFields_map_ofGroup, withName, grouped_branch, groupNamed, hnames]
    simp only [hgroup]

/-- The JSON of a leaf is its text. That of a branch is an object with the names of the children as its
keys, each once and in the order in which they first appear; under a key stands the JSON of the child
if it is the only one of its name, and the list of the JSON of all children of that name otherwise. So
a node can be rebuilt from its JSON but for its own name, which tags were closed, and how children of
different names were mixed; and no more than that is lost. -/
theorem toJson_keeps_tree :
    (∀ name text complete, (leaf name text complete).toJson = .string text) ∧
    (∀ name children complete, ∃ fields, (branch name children complete).toJson = .object fields ∧
      fields.map Prod.fst = (children.map Node.name).eraseDups ∧ (fields.map Prod.fst).Nodup ∧
      ∀ key x, (key, x) ∈ fields →
        let group := children.filter fun n ↦ n.name == key
        group ≠ [] ∧ (∀ n, group = [n] → x = n.toJson) ∧
          (2 ≤ group.length → x = .array (group.map toJson))) ∧
    (∀ (n : Node) name, ofJson name n.toJson = (n.withName name).grouped) ∧
    ∀ n m : Node, n.toJson = m.toJson ↔
      ∀ name, (n.withName name).grouped = (m.withName name).grouped := by
  refine ⟨toJson_leaf, ?_, ofJson_toJson, ?_⟩
  · intro name children complete
    have hkeys : ((children.map Node.name).eraseDups.map fun key ↦
        (key, Json.ofGroup ((named children key).map toJson))).map Prod.fst =
          (children.map Node.name).eraseDups := by
      simp [Function.comp_def]
    refine ⟨_, toJson_branch .., hkeys, ?_, ?_⟩
    · rw [hkeys]
      exact nodup_eraseDups _
    · intro key x hx group
      obtain ⟨key, hkey, heq⟩ := List.mem_map.1 hx
      obtain ⟨rfl, rfl⟩ := Prod.mk.inj heq
      have hgroup : named children key = group := rfl
      rw [hgroup]
      refine ⟨named_ne_nil hkey, ?_, ?_⟩
      · intro n hn
        rw [hn]
        rfl
      · intro hlength
        match group, hlength with
        | n :: n' :: rest, _ => rfl
  · intro n m
    constructor
    · intro h name
      rw [← ofJson_toJson, ← ofJson_toJson, h]
    · intro h
      rw [← toJson_withName n.name n, ← toJson_grouped, h, toJson_grouped, toJson_withName]

/-- The name of a node stands outside of its JSON. -/
theorem toJson_omits_own_name :
    (leaf "type" "x" true).toJson = (leaf "result" "x" true).toJson ∧
      (leaf "type" "x" true).grouped ≠ (leaf "result" "x" true).grouped := by
  decide

end Node
end AgentReply
