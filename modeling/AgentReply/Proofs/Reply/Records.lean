import AgentReply.Proofs.Json.Trim
import AgentReply.Proofs.Markup.Writing
import AgentReply.Proofs.Reply.Grouping
import AgentReply.Reply.Record
import Mathlib.Data.List.Forall2
import Mathlib.Data.List.Nodup

/-!
# Records that are written and read

Artifacts, tool calls and tool results are written as items of their collections, each with a leaf for
every field that it has, in any order. A collection may be written in several blocks, and the blocks of the
three collections may stand between each other. What is read from such a text are the records, in order:
the tree of the text is the one that was written, its envelope is opened, the items of all blocks of a
collection are gathered under its key, and each field is the first child of its name.
-/

namespace AgentReply

open Text (IsGap)

theorem lookup_map_pair {β : Type} (names : List String) (f : String → β) (key : String) :
    (names.map fun name ↦ (name, f name)).lookup key = if key ∈ names then some (f key) else none := by
  induction names with
  | nil => rfl
  | cons name names ih =>
    rw [List.map_cons, List.lookup_cons, ih]
    by_cases hkey : key = name
    · simp [hkey]
    · have hbeq : (key == name) = false := beq_eq_false_iff_ne.2 hkey
      simp [hbeq, hkey]

namespace Node

variable {v : Vocabulary} {name : String} {children : List Node} {above : List String}

/-- The leaf of a field, if there is a text for it. -/
def field (name : String) (text : Option String) : List Node :=
  (text.map fun text ↦ Node.leaf name text true).toList

/-- A node around others. Around none it is an empty leaf. -/
def around (name : String) : List Node → Node
  | [] => .leaf name "" true
  | n :: rest => .branch name (n :: rest) true

@[simp] theorem name_around (name : String) (children : List Node) :
    (around name children).name = name := by
  cases children <;> rfl

@[simp] theorem children_around (name : String) (children : List Node) :
    (around name children).children = children := by
  cases children <;> rfl

@[simp] theorem complete_around (name : String) (children : List Node) :
    (around name children).complete = true := by
  cases children <;> rfl

theorem mem_field {n : Node} {text : Option String} :
    n ∈ field name text ↔ ∃ t, text = some t ∧ n = .leaf name t true := by
  cases text with
  | none => simp [field]
  | some t => simp [field]

theorem mem_fields {n : Node} {fields : List (String × Option String)} :
    n ∈ fields.flatMap (fun (name, text) ↦ field name text) ↔
      ∃ name t, (name, some t) ∈ fields ∧ n = .leaf name t true := by
  rw [List.mem_flatMap]
  constructor
  · rintro ⟨⟨name, text⟩, hmem, hn⟩
    obtain ⟨t, rfl, rfl⟩ := mem_field.1 hn
    exact ⟨name, t, hmem, rfl⟩
  · rintro ⟨name, t, hmem, rfl⟩
    exact ⟨(name, some t), hmem, mem_field.2 ⟨t, rfl, rfl⟩⟩

theorem childText?_eq {n : Node} {fields : List (String × Option String)} {text : Option String}
    (hperm : n.children.Perm (fields.flatMap fun (name, text) ↦ field name text))
    (hnodup : (fields.map Prod.fst).Nodup) (hfield : (name, text) ∈ fields) :
    n.childText? name = text := by
  -- the first child of the name is the only one, wherever it stands
  have honly : ∀ text', (name, text') ∈ fields → text' = text := by
    intro text' hfield'
    have heq := List.inj_on_of_nodup_map hnodup hfield' hfield rfl
    exact (Prod.mk.inj heq).2
  rw [childText?, child?]
  cases hfound : n.children.find? fun c ↦ c.name == name with
  | none =>
    cases text with
    | none => rfl
    | some t =>
      have hmem : Node.leaf name t true ∈ n.children :=
        hperm.mem_iff.2 (mem_fields.2 ⟨name, t, hfield, rfl⟩)
      have hnot := List.find?_eq_none.1 hfound _ hmem
      simp at hnot
  | some c =>
    have hmem := hperm.mem_iff.1 (List.mem_of_find?_eq_some hfound)
    obtain ⟨other, t, hother, rfl⟩ := mem_fields.1 hmem
    obtain rfl : other = name := by simpa using List.find?_some hfound
    exact honly (some t) hother

theorem liftAll_eq_self {nodes : List Node} (h : ∀ n ∈ nodes, v.isEnvelope n.name = false) :
    liftAll v nodes = nodes := by
  induction nodes with
  | nil => rw [liftAll_nil]
  | cons n nodes ih =>
    have hn := h n List.mem_cons_self
    have hlift : n.lift v = [n] := by
      cases n with
      | leaf name text complete =>
        rw [name_leaf] at hn
        simp [lift, hn]
      | branch name children complete =>
        rw [name_branch] at hn
        simp [lift, hn]
    rw [liftAll_cons, hlift, ih fun m hm ↦ h m (List.mem_cons_of_mem n hm), List.singleton_append]

theorem liftAll_around (h : v.isEnvelope name = true) (nodes : List Node) :
    liftAll v [around name nodes] = liftAll v nodes := by
  rw [liftAll_cons, liftAll_nil, List.append_nil]
  cases nodes with
  | nil =>
    have hblank : Text.isBlankText "" = true := rfl
    simp [around, lift, h, hblank]
  | cons n nodes => simp [around, lift, h]

theorem not_infix_nil (t : Tag) : ¬t.lexeme <:+: "".toList := by
  rintro ⟨before, after, h⟩
  simp [Tag.lexeme_eq] at h

theorem writable_around (hknown : v.isKnown name = true) (hverb : v.isVerbatim name = false)
    (hchildren : ∀ n ∈ children, n.Writable v (name :: above)) :
    (around name children).Writable v above := by
  cases children with
  | nil =>
    refine .leaf hknown hverb rfl ?_
    intro t _ hin
    exact absurd hin (not_infix_nil t)
  | cons n rest => exact .branch hknown hverb (List.cons_ne_nil n rest) hchildren

end Node

theorem Arguments.parse_of_read {raw : String} {fields : List (String × Json)}
    (h : Json.read raw = .ok (.object fields)) : parse raw = fields := by
  have hhead := Json.head?_trim_of_object h
  have hread := Json.read_trimmed h
  rw [Text.trimmed] at hread
  simp only [parse, hhead, hread]

/-! ### How records are written -/

/-- A text that can stand in a leaf of a name. A verbatim one has no closing tag of the name; any other
is trimmed, and there are no tags in it. -/
structure IsPayload (name text : String) : Prop where
  lacksClosing : Vocabulary.standard.isVerbatim name = true → ∀ t : Tag, t.IsOf .standard →
    t.lexeme <:+: text.toList → t.closing = true → t.name ≠ name
  trim_eq : Vocabulary.standard.isVerbatim name = false → Text.trim text.toList = text.toList
  isTagless : Vocabulary.standard.isVerbatim name = false → ∀ t : Tag, t.IsOf .standard →
    ¬t.lexeme <:+: text.toList

theorem isPayload_iff {name text : String} :
    IsPayload name text ↔
      if Vocabulary.standard.isVerbatim name then
        ∀ t ∈ Tag.occurrences .standard text.toList, t.closing = true → t.name ≠ name
      else Text.trim text.toList = text.toList ∧ Tag.occurrences .standard text.toList = [] := by
  split
  · next hverb =>
    constructor
    · intro h t ht
      obtain ⟨hof, hin⟩ := Tag.mem_occurrences_iff.1 ht
      exact h.lacksClosing hverb t hof hin
    · intro h
      exact ⟨fun _ ↦ Tag.forall_of_occurrences h, by simp [hverb], by simp [hverb]⟩
  · next hverb =>
    have hfalse := Bool.eq_false_iff.2 hverb
    constructor
    · intro h
      refine ⟨h.trim_eq hfalse, List.eq_nil_iff_forall_not_mem.2 fun t ht ↦ ?_⟩
      obtain ⟨hof, hin⟩ := Tag.mem_occurrences_iff.1 ht
      exact h.isTagless hfalse t hof hin
    · rintro ⟨htrim, hnone⟩
      refine ⟨fun h ↦ absurd h hverb, fun _ ↦ htrim, fun _ ↦ ?_⟩
      apply Tag.forall_of_occurrences
      simp [hnone]

instance (name text : String) : Decidable (IsPayload name text) :=
  decidable_of_iff _ isPayload_iff.symm

/-- An item with a leaf for each field that has a text, in any order. -/
structure Node.Holds (n : Node) (item : String) (fields : List (String × Option String)) : Prop where
  isPayload : ∀ field ∈ fields, ∀ text ∈ field.2, IsPayload field.1 text
  exists_children : ∃ children, n = .around item children ∧
    children.Perm (fields.flatMap fun (name, text) ↦ Node.field name text)

def Artifact.fields (a : Artifact) : List (String × Option String) :=
  [("identifier", a.identifier), ("type", a.kind), ("language", a.language), ("title", a.title),
    ("content", a.content)]

def Artifact.WrittenAs (a : Artifact) (n : Node) : Prop :=
  a.complete = true ∧ n.Holds "artifact" a.fields

/-- The arguments may be written as any JSON text of their object. -/
def ToolCall.WrittenAs (t : ToolCall) (n : Node) : Prop :=
  t.complete = true ∧ ∃ raw, Json.read raw = .ok (.object t.arguments) ∧
    n.Holds "tool" [("name", some t.name), ("arguments", some raw)]

def ToolResult.WrittenAs (r : ToolResult) (n : Node) : Prop :=
  r.complete = true ∧ n.Holds "tool" [("name", some r.name), ("result", r.result)]

/-- Records that are written within one pair of tags. -/
inductive Block where
  | ofArtifacts (records : List Artifact)
  | ofToolCalls (records : List ToolCall)
  | ofToolResults (records : List ToolResult)

namespace Block

def artifacts : Block → List Artifact
  | ofArtifacts records => records
  | ofToolCalls _ | ofToolResults _ => []

def toolCalls : Block → List ToolCall
  | ofToolCalls records => records
  | ofArtifacts _ | ofToolResults _ => []

def toolResults : Block → List ToolResult
  | ofToolResults records => records
  | ofArtifacts _ | ofToolCalls _ => []

def WrittenAs : Block → Node → Prop
  | ofArtifacts records, n =>
    ∃ items, List.Forall₂ Artifact.WrittenAs records items ∧ n = .around "artifacts" items
  | ofToolCalls records, n =>
    ∃ items, List.Forall₂ ToolCall.WrittenAs records items ∧ n = .around "tool_calls" items
  | ofToolResults records, n =>
    ∃ items, List.Forall₂ ToolResult.WrittenAs records items ∧ n = .around "tool_call_results" items

end Block

/-! ### What is read of an item -/

namespace Node.Holds

variable {n : Node} {item name : String} {fields : List (String × Option String)}
  {text : Option String} {above : List String}

theorem name_eq (h : n.Holds item fields) : n.name = item := by
  obtain ⟨children, rfl, -⟩ := h.exists_children
  exact name_around item children

theorem complete_eq (h : n.Holds item fields) : n.complete = true := by
  obtain ⟨children, rfl, -⟩ := h.exists_children
  exact complete_around item children

theorem childText?_eq (h : n.Holds item fields) (hnodup : (fields.map Prod.fst).Nodup)
    (hfield : (name, text) ∈ fields) : n.childText? name = text := by
  obtain ⟨children, rfl, hperm⟩ := h.exists_children
  refine Node.childText?_eq ?_ hnodup hfield
  rw [children_around]
  exact hperm

theorem writable (h : n.Holds item fields) (hknown : Vocabulary.standard.isKnown item = true)
    (hverb : Vocabulary.standard.isVerbatim item = false)
    (hnames : ∀ name ∈ fields.map Prod.fst, Vocabulary.standard.isKnown name = true) :
    n.Writable .standard above := by
  obtain ⟨children, rfl, hperm⟩ := h.exists_children
  refine writable_around hknown hverb fun c hc ↦ ?_
  obtain ⟨name, t, hfield, rfl⟩ := mem_fields.1 (hperm.mem_iff.1 hc)
  have hname := hnames name (List.mem_map_of_mem hfield)
  have hpayload : IsPayload name t := h.isPayload _ hfield t rfl
  cases hv : Vocabulary.standard.isVerbatim name with
  | true => exact .verbatim hname hv (hpayload.lacksClosing hv)
  | false =>
    refine .leaf hname hv (hpayload.trim_eq hv) ?_
    intro t ht hin
    exact absurd hin (hpayload.isTagless hv t ht)

end Node.Holds

theorem Artifact.WrittenAs.writable {a : Artifact} {n : Node} {above : List String}
    (h : a.WrittenAs n) : n.Writable .standard above := by
  have hnames : ∀ name ∈ ["identifier", "type", "language", "title", "content"],
      Vocabulary.standard.isKnown name = true := by
    decide +kernel
  exact h.2.writable (by decide +kernel) (by decide +kernel) hnames

theorem ToolCall.WrittenAs.writable {t : ToolCall} {n : Node} {above : List String}
    (h : t.WrittenAs n) : n.Writable .standard above := by
  obtain ⟨-, raw, -, hn⟩ := h
  have hnames : ∀ name ∈ ["name", "arguments"], Vocabulary.standard.isKnown name = true := by
    decide +kernel
  exact hn.writable (by decide +kernel) (by decide +kernel) hnames

theorem ToolResult.WrittenAs.writable {r : ToolResult} {n : Node} {above : List String}
    (h : r.WrittenAs n) : n.Writable .standard above := by
  have hnames : ∀ name ∈ ["name", "result"], Vocabulary.standard.isKnown name = true := by
    decide +kernel
  exact h.2.writable (by decide +kernel) (by decide +kernel) hnames

theorem Artifact.WrittenAs.ofNode {a : Artifact} {n : Node} (h : a.WrittenAs n) :
    n.name = "artifact" ∧ Artifact.ofNode n = a := by
  obtain ⟨hcomplete, hn⟩ := h
  have hnodup : (a.fields.map Prod.fst).Nodup := by simp [fields]
  refine ⟨hn.name_eq, ?_⟩
  rw [Artifact.ofNode, hn.complete_eq, ← hcomplete,
    hn.childText?_eq hnodup (show ("identifier", a.identifier) ∈ a.fields by simp [fields]),
    hn.childText?_eq hnodup (show ("type", a.kind) ∈ a.fields by simp [fields]),
    hn.childText?_eq hnodup (show ("language", a.language) ∈ a.fields by simp [fields]),
    hn.childText?_eq hnodup (show ("title", a.title) ∈ a.fields by simp [fields]),
    hn.childText?_eq hnodup (show ("content", a.content) ∈ a.fields by simp [fields])]

theorem ToolCall.WrittenAs.ofNode {t : ToolCall} {n : Node} (h : t.WrittenAs n) :
    n.name = "tool" ∧ ToolCall.ofNode n = t := by
  obtain ⟨hcomplete, raw, hread, hn⟩ := h
  have hname : n.childText? "name" = some t.name := hn.childText?_eq (by simp) (by simp)
  have harguments : n.childText? "arguments" = some raw := hn.childText?_eq (by simp) (by simp)
  refine ⟨hn.name_eq, ?_⟩
  rw [ToolCall.ofNode, hname, harguments, hn.complete_eq, ← hcomplete, Option.map_some,
    Arguments.parse_of_read hread, Option.getD_some, Option.getD_some]

theorem ToolResult.WrittenAs.ofNode {r : ToolResult} {n : Node} (h : r.WrittenAs n) :
    n.name = "tool" ∧ ToolResult.ofNode n = r := by
  obtain ⟨hcomplete, hn⟩ := h
  have hname : n.childText? "name" = some r.name := hn.childText?_eq (by simp) (by simp)
  have hresult : n.childText? "result" = r.result := hn.childText?_eq (by simp) (by simp)
  refine ⟨hn.name_eq, ?_⟩
  rw [ToolResult.ofNode, hname, hresult, hn.complete_eq, ← hcomplete, Option.getD_some]

/-! ### What is read of blocks -/

/-- The items of a collection, if the node is one of the name `key`. -/
def Node.itemsOf (key item : String) (n : Node) : List Node :=
  if n.name == key then n.children.filter fun c ↦ c.name == item else []

theorem forall_of_forall₂ {β γ : Type} {W : β → γ → Prop} {P : γ → Prop} {xs : List β} {ys : List γ}
    (h : List.Forall₂ W xs ys) (hW : ∀ x y, W x y → P y) : ∀ y ∈ ys, P y := by
  induction h with
  | nil => simp
  | cons hxy _ ih => exact List.forall_mem_cons.2 ⟨hW _ _ hxy, ih⟩

theorem map_itemsOf_around {β : Type} {W : β → Node → Prop} {ofNode : Node → β} {item : String}
    (hread : ∀ a n, W a n → n.name = item ∧ ofNode n = a) {records : List β} {items : List Node}
    (h : List.Forall₂ W records items) (key : String) :
    ((Node.around key items).itemsOf key item).map ofNode = records := by
  rw [Node.itemsOf, Node.name_around, Node.children_around, if_pos (beq_self_eq_true key)]
  induction h with
  | nil => rfl
  | @cons a n records items hn _ ih =>
    obtain ⟨hname, hnode⟩ := hread a n hn
    have hkeeps : (n.name == item) = true := beq_iff_eq.2 hname
    rw [List.filter_cons, if_pos hkeeps, List.map_cons, hnode, ih]

namespace Block.WrittenAs

variable {b : Block} {n : Node} {above : List String}

theorem artifacts_eq (h : b.WrittenAs n) :
    (n.itemsOf "artifacts" "artifact").map Artifact.ofNode = b.artifacts := by
  cases b with
  | ofArtifacts records =>
    obtain ⟨items, hitems, rfl⟩ := h
    exact map_itemsOf_around (fun _ _ ↦ Artifact.WrittenAs.ofNode) hitems "artifacts"
  | ofToolCalls _ | ofToolResults _ =>
    obtain ⟨items, -, rfl⟩ := h
    simp [Node.itemsOf, artifacts]

theorem toolCalls_eq (h : b.WrittenAs n) :
    (n.itemsOf "tool_calls" "tool").map ToolCall.ofNode = b.toolCalls := by
  cases b with
  | ofToolCalls records =>
    obtain ⟨items, hitems, rfl⟩ := h
    exact map_itemsOf_around (fun _ _ ↦ ToolCall.WrittenAs.ofNode) hitems "tool_calls"
  | ofArtifacts _ | ofToolResults _ =>
    obtain ⟨items, -, rfl⟩ := h
    simp [Node.itemsOf, toolCalls]

theorem toolResults_eq (h : b.WrittenAs n) :
    (n.itemsOf "tool_call_results" "tool").map ToolResult.ofNode = b.toolResults := by
  cases b with
  | ofToolResults records =>
    obtain ⟨items, hitems, rfl⟩ := h
    exact map_itemsOf_around (fun _ _ ↦ ToolResult.WrittenAs.ofNode) hitems "tool_call_results"
  | ofArtifacts _ | ofToolCalls _ =>
    obtain ⟨items, -, rfl⟩ := h
    simp [Node.itemsOf, toolResults]

theorem complete_eq (h : b.WrittenAs n) : n.complete = true := by
  cases b with
  | ofArtifacts _ | ofToolCalls _ | ofToolResults _ =>
    obtain ⟨items, -, rfl⟩ := h
    exact Node.complete_around _ items

theorem isEnvelope_eq (h : b.WrittenAs n) : Vocabulary.standard.isEnvelope n.name = false := by
  cases b with
  | ofArtifacts _ | ofToolCalls _ | ofToolResults _ =>
    obtain ⟨items, -, rfl⟩ := h
    rw [Node.name_around]
    decide +kernel

theorem writable (h : b.WrittenAs n) : n.Writable .standard above := by
  cases b with
  | ofArtifacts records =>
    obtain ⟨items, hitems, rfl⟩ := h
    exact Node.writable_around (by decide +kernel) (by decide +kernel)
      (forall_of_forall₂ hitems fun _ _ ↦ Artifact.WrittenAs.writable)
  | ofToolCalls records =>
    obtain ⟨items, hitems, rfl⟩ := h
    exact Node.writable_around (by decide +kernel) (by decide +kernel)
      (forall_of_forall₂ hitems fun _ _ ↦ ToolCall.WrittenAs.writable)
  | ofToolResults records =>
    obtain ⟨items, hitems, rfl⟩ := h
    exact Node.writable_around (by decide +kernel) (by decide +kernel)
      (forall_of_forall₂ hitems fun _ _ ↦ ToolResult.WrittenAs.writable)

variable {blocks : List Block} {nodes roots : List Node}

/-- A response around the blocks is opened. -/
theorem liftAll_eq (hblocks : List.Forall₂ WrittenAs blocks nodes)
    (hroots : roots = nodes ∨ roots = [.around "response" nodes]) :
    Node.liftAll .standard roots = nodes := by
  have hself : Node.liftAll .standard nodes = nodes :=
    Node.liftAll_eq_self (forall_of_forall₂ hblocks fun _ _ ↦ isEnvelope_eq)
  rcases hroots with rfl | rfl
  · exact hself
  · rw [Node.liftAll_around (by decide +kernel), hself]

theorem forall_writable (hblocks : List.Forall₂ WrittenAs blocks nodes)
    (hroots : roots = nodes ∨ roots = [.around "response" nodes]) :
    ∀ n ∈ roots, n.Writable .standard [] := by
  rcases hroots with rfl | rfl
  · exact forall_of_forall₂ hblocks fun _ _ ↦ writable
  · rw [List.forall_mem_singleton]
    exact Node.writable_around (by decide +kernel) (by decide +kernel)
      (forall_of_forall₂ hblocks fun _ _ ↦ writable)

end Block.WrittenAs

theorem Node.flatMap_itemsOf (key item : String) (nodes : List Node) :
    nodes.flatMap (itemsOf key item) =
      (nodes.filter fun n ↦ n.name == key).flatMap fun n ↦ n.children.filter fun c ↦ c.name == item := by
  induction nodes with
  | nil => rfl
  | cons n nodes ih =>
    rw [List.flatMap_cons, ih, List.filter_cons, itemsOf]
    split
    · rw [List.flatMap_cons]
    · rw [List.nil_append]

theorem Entry.complete_ofNodes (v : Vocabulary) (name : String) (nodes : List Node) :
    (ofNodes v name nodes).complete = nodes.all Node.complete := by
  cases hcollects : if v.isEnvelope name then none else v.itemName? name with
  | some item => simp only [ofNodes, hcollects, complete]
  | none =>
    simp only [ofNodes, hcollects]
    rcases nodes with _ | ⟨n, _ | ⟨m, rest⟩⟩
    · rfl
    · simp
    · rfl

namespace Reply

variable {v : Vocabulary} {d : Document} {key item : String}

theorem items_ofDocument (he : v.isEnvelope key = false) (hi : v.itemName? key = some item)
    (d : Document) :
    (ofDocument v d).items key = (Node.liftAll v d.nodes).flatMap (Node.itemsOf key item) := by
  rw [Node.flatMap_itemsOf, items, get?, entries_ofDocument, Entry.groups, lookup_map_pair,
    Entry.ofNodes_collection he hi]
  split
  · rfl
  · next hkey =>
    have hnone : (Node.liftAll v d.nodes).filter (fun n ↦ n.name == key) = [] := by
      rw [List.filter_eq_nil_iff]
      intro n hn hname
      apply hkey
      rw [List.mem_eraseDups, ← beq_iff_eq.1 hname]
      exact List.mem_map_of_mem hn
    rw [hnone]
    rfl

theorem complete_ofDocument (h : ∀ n ∈ Node.liftAll v d.nodes, n.complete = true) :
    (ofDocument v d).complete = true := by
  rw [complete, entries_ofDocument, Entry.groups, List.all_map, List.all_eq_true]
  intro name _
  change (Entry.ofNodes v name _).complete = true
  rw [Entry.complete_ofNodes, List.all_eq_true]
  intro n hn
  exact h n (List.mem_of_mem_filter hn)

theorem map_items_ofDocument {β : Type} {ofNode : Node → β} {records : Block → List β}
    (he : v.isEnvelope key = false) (hi : v.itemName? key = some item)
    (hread : ∀ b n, b.WrittenAs n → (n.itemsOf key item).map ofNode = records b)
    {blocks : List Block} (h : List.Forall₂ Block.WrittenAs blocks (Node.liftAll v d.nodes)) :
    ((ofDocument v d).items key).map ofNode = blocks.flatMap records := by
  rw [items_ofDocument he hi, List.map_flatMap]
  generalize Node.liftAll v d.nodes = nodes at h
  induction h with
  | nil => rfl
  | cons hb _ ih => rw [List.flatMap_cons, List.flatMap_cons, hread _ _ hb, ih]

/-- Records that are written in any number of blocks, with or without a response around them, are what is
read, and nothing of it is left open. -/
theorem parse_keeps_records {blocks : List Block} {nodes roots : List Node} {text : String}
    (hblocks : List.Forall₂ Block.WrittenAs blocks nodes)
    (hroots : roots = nodes ∨ roots = [.around "response" nodes])
    (htext : Written .standard roots text.toList) :
    let r := parse .standard text
    r.artifacts = blocks.flatMap Block.artifacts ∧ r.toolCalls = blocks.flatMap Block.toolCalls ∧
      r.toolResults = blocks.flatMap Block.toolResults ∧ r.complete = true := by
  -- nothing of the text is loose, so the reply is decided by the nodes
  have hdocument : Document.parse .standard text = ⟨roots, []⟩ := by
    rw [Outline.parse_eq_finish]
    exact Outline.finish_read_written (by decide +kernel) htext
      (Block.WrittenAs.forall_writable hblocks hroots) .standard
  have hwritten : List.Forall₂ Block.WrittenAs blocks
      (Node.liftAll .standard (Document.parse .standard text).nodes) := by
    rw [hdocument, Block.WrittenAs.liftAll_eq hblocks hroots]
    exact hblocks
  refine ⟨?_, ?_, ?_, ?_⟩
  · exact map_items_ofDocument (by decide +kernel) (by decide +kernel)
      (fun _ _ ↦ Block.WrittenAs.artifacts_eq) hwritten
  · exact map_items_ofDocument (by decide +kernel) (by decide +kernel)
      (fun _ _ ↦ Block.WrittenAs.toolCalls_eq) hwritten
  · exact map_items_ofDocument (by decide +kernel) (by decide +kernel)
      (fun _ _ ↦ Block.WrittenAs.toolResults_eq) hwritten
  · exact complete_ofDocument (forall_of_forall₂ hwritten fun _ _ ↦ Block.WrittenAs.complete_eq)

/-- A reply with two blocks of artifacts, the second with an artifact that has no fields. The content of
the other is markup and ends in a line break. -/
theorem parse_keeps_records_two_blocks :
    let first : Artifact := ⟨some "a", some "code", none, none, some "\n<tool> </artifact>\n", true⟩
    let second : Artifact := ⟨none, none, none, none, none, true⟩
    let call : ToolCall := ⟨"ls", [("all", .bool true), ("path", .string "<b>")], true⟩
    let result : ToolResult := ⟨"ls", some "", true⟩
    let r := parse .standard ("<response><artifacts><artifact><type>code</type><identifier>a" ++
      "</identifier><content>\n<tool> </artifact>\n</content></artifact></artifacts><tool_calls>" ++
      "<tool><name>ls</name><arguments> \x7b\"path\": \"<b>\", \"all\": true\x7d\n</arguments></tool>" ++
      "</tool_calls><artifacts><artifact></artifact></artifacts><tool_call_results><tool><name>ls" ++
      "</name><result></result></tool></tool_call_results>\n</response>")
    r.artifacts = [first, second] ∧ r.toolCalls = [call] ∧ r.toolResults = [result] ∧
      r.complete = true := by
  intro first second call result r
  let raw := " \x7b\"path\": \"<b>\", \"all\": true\x7d\n"
  have hread : Json.read raw = .ok (.object call.arguments) := by decide +kernel
  let item₁ := Node.around "artifact" [.leaf "type" "code" true, .leaf "identifier" "a" true,
    .leaf "content" "\n<tool> </artifact>\n" true]
  let item₂ := Node.around "artifact" []
  let item₃ := Node.around "tool" [.leaf "name" "ls" true, .leaf "arguments" raw true]
  let item₄ := Node.around "tool" [.leaf "name" "ls" true, .leaf "result" "" true]
  have hfirst : first.WrittenAs item₁ := ⟨rfl, ⟨by decide +kernel, _, rfl, by decide +kernel⟩⟩
  have hsecond : second.WrittenAs item₂ := ⟨rfl, ⟨by decide +kernel, _, rfl, by decide +kernel⟩⟩
  have hcall : call.WrittenAs item₃ :=
    ⟨rfl, raw, hread, ⟨by decide +kernel, _, rfl, by decide +kernel⟩⟩
  have hresult : result.WrittenAs item₄ := ⟨rfl, ⟨by decide +kernel, _, rfl, by decide +kernel⟩⟩
  let nodes := [Node.around "artifacts" [item₁], .around "tool_calls" [item₃],
    .around "artifacts" [item₂], .around "tool_call_results" [item₄]]
  have hblocks : List.Forall₂ Block.WrittenAs [.ofArtifacts [first], .ofToolCalls [call],
      .ofArtifacts [second], .ofToolResults [result]] nodes :=
    .cons ⟨_, .cons hfirst .nil, rfl⟩ (.cons ⟨_, .cons hcall .nil, rfl⟩
      (.cons ⟨_, .cons hsecond .nil, rfl⟩ (.cons ⟨_, .cons hresult .nil, rfl⟩ .nil)))
  have hnil : Written .standard [] [] := .nil Text.isGap_nil
  have hlast : Written .standard [] ['\n'] := .nil (by decide)
  have hitem₁ := Written.branch_name "artifact" true (by decide)
    (.leaf_name "type" "code" true (by decide) (.leaf_name "identifier" "a" true (by decide)
      (.leaf_name "content" "\n<tool> </artifact>\n" true (by decide) hnil))) hnil
  have hitem₂ := Written.leaf_name "artifact" "" true (by decide) hnil
  have hitem₃ := Written.branch_name "tool" true (by decide)
    (.leaf_name "name" "ls" true (by decide) (.leaf_name "arguments" raw true (by decide) hnil)) hnil
  have hitem₄ := Written.branch_name "tool" true (by decide)
    (.leaf_name "name" "ls" true (by decide) (.leaf_name "result" "" true (by decide) hnil)) hnil
  have hnodes := Written.branch_name "artifacts" true (by decide) hitem₁
    (.branch_name "tool_calls" true (by decide) hitem₃
      (.branch_name "artifacts" true (by decide) hitem₂
        (.branch_name "tool_call_results" true (by decide) hitem₄ hlast)))
  have htext := Written.branch_name "response" true (by decide) hnodes hnil
  refine parse_keeps_records hblocks (.inr rfl) ((congrArg (Written .standard _) ?_).mpr htext)
  simp only [String.toList_append]
  decide +kernel

end Reply
end AgentReply
