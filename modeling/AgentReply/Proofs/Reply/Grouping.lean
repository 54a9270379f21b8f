import AgentReply.Proofs.Markup.Node
import AgentReply.Reply.Basic
import Mathlib.Data.List.Induction

/-!
# Replies as groups of nodes

A reply is built by putting in one node after the other. What comes out depends on the nodes of each
name alone: there is one entry for each name, in the order in which the names first appear, and it
gathers all nodes of its name. The invariant of the insertion is that the entries are the groups of
the nodes that have been put in so far.
-/

namespace AgentReply

theorem eraseDups_concat (names : List String) (name : String) :
    (names ++ [name]).eraseDups =
      if name ∈ names then names.eraseDups else names.eraseDups ++ [name] := by
  rw [List.eraseDups_append]
  split
  · next h => simp [List.removeAll, h]
  · next h => simp [List.removeAll, h, List.eraseDups_cons]

theorem nodup_eraseDups (names : List String) : names.eraseDups.Nodup := by
  induction names using List.reverseRecOn with
  | nil => simp
  | append_singleton names name ih =>
    rw [eraseDups_concat]
    split
    · exact ih
    · next h =>
      rw [List.nodup_append]
      refine ⟨ih, by simp, ?_⟩
      rintro a ha b hb rfl
      rw [List.mem_singleton] at hb
      exact h (hb ▸ List.mem_eraseDups.1 ha)

/-- The entry that stands for all nodes of a name. A collection lists the items of all its nodes;
any other name stands for its node as it is, or for the list of its nodes if there are more. -/
def Entry.ofNodes (v : Vocabulary) (name : String) (nodes : List Node) : Entry :=
  match if v.isEnvelope name then none else v.itemName? name with
  | some item =>
    .sequence (nodes.flatMap fun n ↦ n.children.filter fun c ↦ c.name == item)
      (nodes.all Node.complete)
  | none =>
    match nodes with
    | [n] => .ofNode n
    | nodes => .sequence nodes (nodes.all Node.complete)

/-- The entries of a list of nodes, grouped by their names. -/
def Entry.groups (v : Vocabulary) (nodes : List Node) : List (String × Entry) :=
  (nodes.map Node.name).eraseDups.map fun name ↦
    (name, Entry.ofNodes v name (nodes.filter fun n ↦ n.name == name))

namespace Entry

variable {v : Vocabulary} {name item : String} {nodes : List Node} {n : Node}

theorem ofNodes_collection (he : v.isEnvelope name = false) (hi : v.itemName? name = some item)
    (nodes : List Node) :
    ofNodes v name nodes =
      .sequence (nodes.flatMap fun n ↦ n.children.filter fun c ↦ c.name == item)
        (nodes.all Node.complete) := by
  simp [ofNodes, he, hi]

theorem addItems_ofNodes (he : v.isEnvelope n.name = false) (hi : v.itemName? n.name = some item)
    (nodes : List Node) :
    (ofNodes v n.name nodes).addItems (n.children.filter fun c ↦ c.name == item) n.complete =
      ofNodes v n.name (nodes ++ [n]) := by
  rw [ofNodes_collection he hi, ofNodes_collection he hi, addItems]
  simp

theorem addNode_ofNode (m n : Node) :
    (ofNode m).addNode m.name n = .sequence [m, n] (m.complete && n.complete) := by
  cases m <;> rfl

theorem addNode_ofNodes (hplain : (if v.isEnvelope n.name then none else v.itemName? n.name) = none)
    (hne : nodes ≠ []) (hname : ∀ m ∈ nodes, m.name = n.name) :
    (ofNodes v n.name nodes).addNode n.name n = ofNodes v n.name (nodes ++ [n]) := by
  simp only [ofNodes, hplain]
  match nodes with
  | [] => exact absurd rfl hne
  | [m] =>
    rw [← hname m List.mem_cons_self, addNode_ofNode]
    simp
  | m :: m' :: rest => simp [addNode, Bool.and_assoc]

theorem mem_keys_groups : name ∈ (groups v nodes).map Prod.fst ↔ name ∈ nodes.map Node.name := by
  simp [groups, List.mem_eraseDups]

theorem filter_concat_of_ne (h : n.name ≠ name) (nodes : List Node) :
    (nodes ++ [n]).filter (fun m ↦ m.name == name) = nodes.filter fun m ↦ m.name == name := by
  simp [h]

/-- A node of a new name makes a group of its own behind the others. -/
theorem groups_concat_of_notMem (h : n.name ∉ nodes.map Node.name) :
    groups v (nodes ++ [n]) = groups v nodes ++ [(n.name, ofNodes v n.name [n])] := by
  have hnames : ((nodes ++ [n]).map Node.name).eraseDups =
      (nodes.map Node.name).eraseDups ++ [n.name] := by
    rw [List.map_append, List.map_singleton, eraseDups_concat, if_neg h]
  have hnone : nodes.filter (fun m ↦ m.name == n.name) = [] := by
    rw [List.filter_eq_nil_iff]
    intro m hm heq
    exact h (List.mem_map.2 ⟨m, hm, by simpa using heq⟩)
  rw [groups, groups, hnames, List.map_append]
  congr 1
  · refine List.map_congr_left fun name hname ↦ ?_
    have hne : n.name ≠ name := by
      rintro rfl
      exact h (List.mem_eraseDups.1 hname)
    rw [filter_concat_of_ne hne]
  · simp [hnone]

/-- A node of a name that is there changes the group of its name alone. -/
theorem groups_concat_of_mem {change : Entry → Entry} (h : n.name ∈ nodes.map Node.name)
    (hchange : ∀ nodes : List Node, nodes ≠ [] → (∀ m ∈ nodes, m.name = n.name) →
      change (ofNodes v n.name nodes) = ofNodes v n.name (nodes ++ [n])) :
    groups v (nodes ++ [n]) =
      (groups v nodes).map fun (k, e) ↦ (k, if k == n.name then change e else e) := by
  have hnames : ((nodes ++ [n]).map Node.name).eraseDups = (nodes.map Node.name).eraseDups := by
    rw [List.map_append, List.map_singleton, eraseDups_concat, if_pos h]
  simp only [groups, hnames, List.map_map]
  refine List.map_congr_left fun name _ ↦ ?_
  by_cases hname : n.name = name
  · subst hname
    have hgroup : nodes.filter (fun m ↦ m.name == n.name) ≠ [] := by
      obtain ⟨m, hm, heq⟩ := List.mem_map.1 h
      exact List.ne_nil_of_mem (List.mem_filter.2 ⟨hm, by simpa using heq⟩)
    have hstep := hchange _ hgroup fun m hm ↦ by simpa using (List.mem_filter.1 hm).2
    simp [hstep, List.filter_append]
  · simp [filter_concat_of_ne hname, Ne.symm hname]

end Entry

/-! ### Envelopes -/

namespace Node

mutual

/-- The nodes that an envelope stands for: its children, or the envelope itself if it is a leaf that is
not blank. Any other node stands for itself. -/
def lift (v : Vocabulary) : Node → List Node
  | .leaf name text complete =>
    if v.isEnvelope name && Text.isBlankText text then [] else [.leaf name text complete]
  | .branch name children complete =>
    if v.isEnvelope name then liftAll v children else [.branch name children complete]

def liftAll (v : Vocabulary) : List Node → List Node
  | [] => []
  | n :: rest => n.lift v ++ liftAll v rest

end

@[simp] theorem liftAll_nil (v : Vocabulary) : liftAll v [] = [] := by
  simp [liftAll]

@[simp] theorem liftAll_cons (v : Vocabulary) (n : Node) (rest : List Node) :
    liftAll v (n :: rest) = n.lift v ++ liftAll v rest := by
  simp [liftAll]

end Node

namespace Reply

variable {v : Vocabulary} {r : Reply} {nodes : List Node}

/-- What is put in for a node: a new entry of its own, or one more node in the entry that is there.
-/
theorem exists_insert_eq (v : Vocabulary) (r : Reply) (n : Node) :
    ∃ change, r.insert v n = r.upsert n.name change (Entry.ofNodes v n.name [n]) ∧
      ∀ nodes : List Node, nodes ≠ [] → (∀ m ∈ nodes, m.name = n.name) →
        change (Entry.ofNodes v n.name nodes) = Entry.ofNodes v n.name (nodes ++ [n]) := by
  cases hcollects : if v.isEnvelope n.name then none else v.itemName? n.name with
  | none =>
    refine ⟨Entry.addNode n.name n, ?_, fun nodes hne hname ↦ ?_⟩
    · simp only [insert, insertPlain, Entry.ofNodes, hcollects]
    · exact Entry.addNode_ofNodes hcollects hne hname
  | some item =>
    have he : v.isEnvelope n.name = false := by
      by_contra h
      simp [h] at hcollects
    have hi : v.itemName? n.name = some item := by simpa [he] using hcollects
    refine ⟨Entry.addItems (n.children.filter fun c ↦ c.name == item) n.complete, ?_,
      fun nodes _ _ ↦ Entry.addItems_ofNodes he hi nodes⟩
    rw [Entry.ofNodes_collection he hi]
    simp [insert, hcollects]

/-- Putting in one node more: the entries are the groups of one node more. -/
theorem entries_insert (h : r.entries = Entry.groups v nodes) (n : Node) :
    (r.insert v n).entries = Entry.groups v (nodes ++ [n]) := by
  obtain ⟨change, hinsert, hchange⟩ := exists_insert_eq v r n
  have hkeys : r.keys.contains n.name = true ↔ n.name ∈ nodes.map Node.name := by
    rw [List.contains_iff_mem, keys, h]
    exact Entry.mem_keys_groups
  rw [hinsert, upsert]
  split
  · next hmem => rw [h, Entry.groups_concat_of_mem (hkeys.1 hmem) hchange]
  · next hmem => rw [h, Entry.groups_concat_of_notMem (mt hkeys.2 hmem)]

theorem entries_foldl_insert (nodes more : List Node) (h : r.entries = Entry.groups v nodes) :
    (more.foldl (insert v) r).entries = Entry.groups v (nodes ++ more) := by
  induction more generalizing r nodes with
  | nil => rw [List.append_nil, List.foldl_nil, h]
  | cons n more ih =>
    rw [List.foldl_cons, ih (nodes ++ [n]) (entries_insert h n), List.append_assoc,
      List.singleton_append]

theorem absorbChildren_eq_foldl {children : List Node}
    (h : ∀ n ∈ children, ∀ r : Reply, r.absorb v n = (n.lift v).foldl (insert v) r) (r : Reply) :
    r.absorbChildren v children = (Node.liftAll v children).foldl (insert v) r := by
  induction children generalizing r with
  | nil => rw [absorbChildren, Node.liftAll_nil, List.foldl_nil]
  | cons n rest ih =>
    rw [List.forall_mem_cons] at h
    rw [absorbChildren, ih h.2, h.1, Node.liftAll_cons, List.foldl_append]

/-- A node is put in as the nodes that it stands for, one after the other. -/
theorem absorb_eq_foldl (v : Vocabulary) (n : Node) (r : Reply) :
    r.absorb v n = (n.lift v).foldl (insert v) r := by
  induction n using Node.induction generalizing r with
  | leaf name text complete =>
    rw [absorb, Node.lift]
    cases he : v.isEnvelope name with
    | false => rfl
    | true =>
      cases hblank : Text.isBlankText text with
      | true => rfl
      | false => simp [insert, he]
  | branch name children complete ih =>
    rw [absorb, Node.lift]
    split
    · exact absorbChildren_eq_foldl ih r
    · rfl

theorem entries_foldl_addUntagged (runs : List Loose) (r : Reply) :
    (runs.foldl addUntagged r).entries = r.entries := by
  induction runs generalizing r with
  | nil => rfl
  | cons run runs ih => exact ih (r.addUntagged run)

theorem entries_absorbAll (index : ℕ) (loose : List Loose) (roots : List Node)
    (h : r.entries = Entry.groups v nodes) :
    (r.absorbAll v index loose roots).entries =
      Entry.groups v (nodes ++ Node.liftAll v roots) := by
  induction roots generalizing r nodes index loose with
  | nil => rw [absorbAll, entries_foldl_addUntagged, h, Node.liftAll_nil, List.append_nil]
  | cons root roots ih =>
    rw [absorbAll, Node.liftAll_cons, ← List.append_assoc]
    apply ih
    rw [absorb_eq_foldl]
    apply entries_foldl_insert
    rw [entries_foldl_addUntagged, h]

theorem entries_ofDocument (v : Vocabulary) (d : Document) :
    (ofDocument v d).entries = Entry.groups v (Node.liftAll v d.nodes) := by
  have hempty : ({} : Reply).entries = Entry.groups v [] := rfl
  exact entries_absorbAll 0 d.loose d.nodes hempty

theorem keys_ofDocument (v : Vocabulary) (d : Document) :
    (ofDocument v d).keys = ((Node.liftAll v d.nodes).map Node.name).eraseDups := by
  rw [keys, entries_ofDocument, Entry.groups, List.map_map]
  exact List.map_id _

/-- A reply is its document with the envelopes opened and the nodes grouped by name. There is one
key for each name, in the order in which the names first appear, and under it stands what all nodes
of the name make, in their order. When a collection is put in whose key is there already, a list of
items stands under the key; so no items are dropped. -/
theorem ofDocument_groups_nodes (v : Vocabulary) (d : Document) :
    let nodes := Node.liftAll v d.nodes
    let r := ofDocument v d
    r.keys = (nodes.map Node.name).eraseDups ∧ r.keys.Nodup ∧
      (r.entries = r.keys.map fun name ↦
        (name, Entry.ofNodes v name (nodes.filter fun n ↦ n.name == name))) ∧
      r.entries = (nodes.foldl (insert v) {}).entries ∧
      ∀ before n after item e, nodes = before ++ n :: after → v.isEnvelope n.name = false →
        v.itemName? n.name = some item → (before.foldl (insert v) {}).get? n.name = some e →
          ∃ items complete, e = .sequence items complete := by
  intro nodes r
  have hkeys : r.keys = (nodes.map Node.name).eraseDups := keys_ofDocument v d
  have hentries : ∀ nodes, (nodes.foldl (insert v) {}).entries = Entry.groups v nodes :=
    fun nodes ↦ entries_foldl_insert [] nodes rfl
  refine ⟨hkeys, ?_, ?_, ?_, ?_⟩
  · rw [hkeys]
    exact nodup_eraseDups _
  · rw [hkeys]
    exact entries_ofDocument v d
  · rw [hentries]
    exact entries_ofDocument v d
  · intro before n after item e _ he hi hget
    rw [get?, hentries before] at hget
    obtain ⟨l₁, l₂, hsplit, -⟩ := List.lookup_eq_some_iff.1 hget
    have hmem : (n.name, e) ∈ Entry.groups v before := by simp [hsplit]
    obtain ⟨name, -, heq⟩ := List.mem_map.1 hmem
    obtain ⟨rfl, rfl⟩ := Prod.mk.inj heq
    exact ⟨_, _, Entry.ofNodes_collection he hi _⟩

theorem ofDocument_groups_nodes_collection :
    let first := Node.branch "tool_calls" [.leaf "tool" "a" true] true
    let second := Node.branch "tool_calls" [.leaf "tool" "b" true] false
    let d : Document := ⟨[.branch "response" [first, second] false], []⟩
    Node.liftAll .standard d.nodes = [first] ++ second :: [] ∧
      Vocabulary.standard.isEnvelope second.name = false ∧
      Vocabulary.standard.itemName? second.name = some "tool" ∧
      ∃ e, ([first].foldl (insert .standard) {}).get? second.name = some e ∧
        ∃ items complete, e = .sequence items complete := by
  intro first second d
  have hnodes : Node.liftAll .standard d.nodes = [first] ++ second :: [] := by decide +kernel
  have he : Vocabulary.standard.isEnvelope second.name = false := by decide +kernel
  have hi : Vocabulary.standard.itemName? second.name = some "tool" := by decide +kernel
  have hget : ([first].foldl (insert .standard) {}).get? second.name =
      some (.sequence [.leaf "tool" "a" true] true) := by decide +kernel
  refine ⟨hnodes, he, hi, _, hget, ?_⟩
  exact (ofDocument_groups_nodes .standard d).2.2.2.2 _ _ _ _ _ hnodes he hi hget

end Reply
end AgentReply
