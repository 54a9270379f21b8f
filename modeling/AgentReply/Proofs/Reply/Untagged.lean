import AgentReply.Proofs.Markup.Outline
import AgentReply.Proofs.Reply.Keys
import AgentReply.Reply.Render

/-!
# Untagged text keeps its place

The loose runs of a document are counted by the top-level nodes before them, the untagged runs of its
reply by the entries before them. The two drift apart where nodes share a name or stand for no name
at all, so the place of a run is the number of distinct names of the nodes before it. Three merges
put the runs among the nodes, the blocks and the fields; each splits its runs, which are in order, at
the place it has come to.
-/

namespace AgentReply

variable {v : Vocabulary}

/-! ### Splitting at a place -/

theorem le_of_mem_takeWhile {α : Type} {f : α → ℕ} {place : ℕ} {x : α} {xs : List α}
    (hx : x ∈ xs.takeWhile fun y ↦ f y ≤ place) : f x ≤ place := by
  simpa using List.mem_takeWhile_imp hx

theorem lt_of_mem_dropWhile {α : Type} {f : α → ℕ} {place : ℕ} {x : α} {xs : List α}
    (h : xs.Pairwise fun a b ↦ f a ≤ f b) (hx : x ∈ xs.dropWhile fun y ↦ f y ≤ place) :
    place < f x := by
  induction xs with
  | nil => cases hx
  | cons y ys ih =>
    obtain ⟨hy, hys⟩ := List.pairwise_cons.1 h
    rw [List.dropWhile_cons] at hx
    split at hx
    · exact ih hys hx
    · next hlt =>
      have hy' : place < f y := by simpa using hlt
      rcases List.mem_cons.1 hx with rfl | hmem
      · exact hy'
      · exact hy'.trans_le (hy x hmem)

/-! ### Runs and nodes -/

namespace Loose

/-- Loose runs with the places where they come to stand, of which none is less than `place`. A run
that is written behind another one never comes before it. -/
def placed (place : ℕ) : List Loose → List Loose
  | [] => []
  | run :: rest => ⟨run.text, max place run.afterNodes⟩ :: placed (max place run.afterNodes) rest

variable {place : ℕ} {loose : List Loose}

theorem map_text_placed (place : ℕ) (loose : List Loose) :
    (placed place loose).map text = loose.map text := by
  induction loose generalizing place with
  | nil => rfl
  | cons run rest ih => rw [placed, List.map_cons, List.map_cons, ih]

theorem le_of_mem_placed {run : Loose} (h : run ∈ placed place loose) : place ≤ run.afterNodes := by
  induction loose generalizing place with
  | nil => cases h
  | cons other rest ih =>
    rcases List.mem_cons.1 h with rfl | hmem
    · exact Nat.le_max_left ..
    · exact (Nat.le_max_left ..).trans (ih hmem)

theorem pairwise_placed (place : ℕ) (loose : List Loose) :
    (placed place loose).Pairwise fun a b ↦ a.afterNodes ≤ b.afterNodes := by
  induction loose generalizing place with
  | nil => exact .nil
  | cons run rest ih => exact .cons (fun _ hother ↦ le_of_mem_placed hother) (ih _)

theorem placed_of_pairwise (h : loose.Pairwise fun a b ↦ a.afterNodes ≤ b.afterNodes)
    (hplace : ∀ run ∈ loose, place ≤ run.afterNodes) : placed place loose = loose := by
  induction loose generalizing place with
  | nil => rfl
  | cons run rest ih =>
    obtain ⟨hrun, hrest⟩ := List.pairwise_cons.1 h
    have hmax : max place run.afterNodes = run.afterNodes :=
      Nat.max_eq_right (hplace run List.mem_cons_self)
    rw [placed, hmax, ih hrest hrun]

/-- The runs that stand at a place come first. -/
theorem placed_split (place : ℕ) (loose : List Loose) :
    placed place loose =
      ((loose.takeWhile fun run ↦ run.afterNodes ≤ place).map fun run ↦ ⟨run.text, place⟩) ++
        placed (place + 1) (loose.dropWhile fun run ↦ run.afterNodes ≤ place) := by
  induction loose with
  | nil => rfl
  | cons run rest ih =>
    by_cases h : run.afterNodes ≤ place
    · simp [placed, h, ih]
    · have hmax : max place run.afterNodes = max (place + 1) run.afterNodes := by omega
      simp [placed, h, hmax]

end Loose

/-- The number of keys that some top-level nodes make. -/
def Node.keyCount (v : Vocabulary) (nodes : List Node) : ℕ := (names v nodes).eraseDups.length

theorem Node.keyCount_mono {a b : List Node} (h : a <+: b) : keyCount v a ≤ keyCount v b := by
  obtain ⟨more, rfl⟩ := h
  rw [keyCount, keyCount, names_append]
  exact (eraseDups_isPrefix (List.prefix_append ..)).length_le

namespace Reply

variable {r : Reply}

theorem length_entries {nodes : List Node} (h : r.entries = Entry.groups v (Node.liftAll v nodes)) :
    r.entries.length = Node.keyCount v nodes := by
  rw [h, Entry.groups, List.length_map]
  rfl

theorem untagged_foldl_addUntagged (runs : List Loose) (r : Reply) :
    (runs.foldl addUntagged r).untagged =
      r.untagged ++ runs.map fun run ↦ ⟨run.text, r.entries.length⟩ := by
  induction runs generalizing r with
  | nil => exact (List.append_nil _).symm
  | cons run runs ih =>
    rw [List.foldl_cons, ih, addUntagged, List.append_assoc]
    rfl

theorem untagged_insert (v : Vocabulary) (r : Reply) (n : Node) :
    (r.insert v n).untagged = r.untagged := by
  obtain ⟨change, hinsert, -⟩ := exists_insert_eq v r n
  rw [hinsert, upsert]
  split <;> rfl

theorem untagged_absorb (v : Vocabulary) (r : Reply) (n : Node) :
    (r.absorb v n).untagged = r.untagged := by
  rw [absorb_eq_foldl]
  induction n.lift v generalizing r with
  | nil => rfl
  | cons m rest ih => rw [List.foldl_cons, ih, untagged_insert]

/-- The untagged text for a run that has found its place among some top-level nodes. -/
def untaggedAt (v : Vocabulary) (nodes : List Node) (run : Loose) : Untagged :=
  ⟨run.text, Node.keyCount v (nodes.take run.afterNodes)⟩

theorem untagged_absorbAll (before roots : List Node) (loose : List Loose)
    (h : r.entries = Entry.groups v (Node.liftAll v before)) :
    (r.absorbAll v before.length loose roots).untagged =
      r.untagged ++ (Loose.placed before.length loose).map (untaggedAt v (before ++ roots)) := by
  induction roots generalizing r before loose with
  | nil =>
    have hplaced : (Loose.placed before.length loose).map (untaggedAt v (before ++ [])) =
        (Loose.placed before.length loose).map fun run ↦ ⟨run.text, Node.keyCount v before⟩ := by
      refine List.map_congr_left fun run hrun ↦ ?_
      rw [untaggedAt, List.append_nil, List.take_of_length_le (Loose.le_of_mem_placed hrun)]
    have htexts : ∀ loose : List Loose, (loose.map fun run ↦
        (⟨run.text, Node.keyCount v before⟩ : Untagged)) =
          (loose.map Loose.text).map fun text ↦ ⟨text, Node.keyCount v before⟩ :=
      fun loose ↦ by rw [List.map_map]; rfl
    rw [absorbAll, untagged_foldl_addUntagged, length_entries h, hplaced, htexts, htexts,
      Loose.map_text_placed]
  | cons root roots ih =>
    -- Untagged runs leave the entries as they are, so the invariant passes on to the next root.
    have hentries : ∀ runs : List Loose, ((runs.foldl addUntagged r).absorb v root).entries =
        Entry.groups v (Node.liftAll v (before ++ [root])) := by
      intro runs
      rw [Node.liftAll_append, Node.liftAll_cons, Node.liftAll_nil, List.append_nil]
      rw [absorb_eq_foldl]
      exact entries_foldl_insert _ _ ((entries_foldl_addUntagged runs r).trans h)
    have hlength : before.length + 1 = (before ++ [root]).length := by simp
    have hplace : ∀ run : Loose, untaggedAt v (before ++ root :: roots) ⟨run.text, before.length⟩ =
        ⟨run.text, Node.keyCount v before⟩ := by
      intro run
      rw [untaggedAt, List.take_left]
    rw [absorbAll, hlength, ih _ _ (hentries _), untagged_absorb, untagged_foldl_addUntagged,
      length_entries h, Loose.placed_split before.length loose, List.map_append, List.map_map,
      ← hlength, List.append_assoc, List.append_assoc, List.singleton_append]
    simp only [Function.comp_def, hplace]

theorem untagged_ofDocument (v : Vocabulary) (d : Document) :
    (ofDocument v d).untagged = (Loose.placed 0 d.loose).map (untaggedAt v d.nodes) :=
  untagged_absorbAll [] d.nodes d.loose rfl

end Reply

/-! ### Runs and blocks -/

namespace Render

/-- The lines at a place that has `i` entries before it: the untagged runs that stand there and the
block of the entry that comes next, if there is one. -/
def linesAt (r : Reply) (untagged : List Untagged) (i : ℕ) (next : Option (String × Entry)) :
    List String :=
  ((untagged.filter fun run ↦ run.entry == i).map Untagged.text) ++
    (next.map fun (key, e) ↦ block r key e).getD []

variable {r : Reply} {i : ℕ} {before after : List Untagged} {e : Option (String × Entry)}

theorem linesAt_append_of_eq (hbefore : ∀ run ∈ before, run.entry = i)
    (hafter : ∀ run ∈ after, i < run.entry) : linesAt r (before ++ after) i e =
      before.map Untagged.text ++ (e.map fun (key, e) ↦ block r key e).getD [] := by
  have hall : before.filter (fun run ↦ run.entry == i) = before := by
    rw [List.filter_eq_self]
    exact fun run hrun ↦ beq_iff_eq.2 (hbefore run hrun)
  have hnone : after.filter (fun run ↦ run.entry == i) = [] := by
    rw [List.filter_eq_nil_iff]
    exact fun run hrun heq ↦ (hafter run hrun).ne' (beq_iff_eq.1 heq)
  rw [linesAt, List.filter_append, hall, hnone, List.append_nil]

theorem linesAt_append_of_lt (hbefore : ∀ run ∈ before, run.entry < i) :
    linesAt r (before ++ after) i e = linesAt r after i e := by
  have hnone : before.filter (fun run ↦ run.entry == i) = [] := by
    rw [List.filter_eq_nil_iff]
    exact fun run hrun heq ↦ (hbefore run hrun).ne (beq_iff_eq.1 heq)
  rw [linesAt, List.filter_append, hnone, List.nil_append]
  rfl

theorem blocks_eq (index : ℕ) (untagged : List Untagged) (entries : List (String × Entry))
    (horder : untagged.Pairwise fun a b ↦ a.entry ≤ b.entry)
    (hindex : ∀ run ∈ untagged, index ≤ run.entry)
    (hcount : ∀ run ∈ untagged, run.entry ≤ index + entries.length) :
    blocks r index untagged entries = (List.range (entries.length + 1)).flatMap fun i ↦
      linesAt r untagged (index + i) entries[i]? := by
  induction entries generalizing index untagged with
  | nil =>
    have hall : ∀ run ∈ untagged, run.entry = index :=
      fun run hrun ↦ le_antisymm (hcount run hrun) (hindex run hrun)
    have hlines := linesAt_append_of_eq (r := r) (e := none) hall (List.forall_mem_nil _)
    simpa [blocks] using hlines.symm
  | cons entry rest ih =>
    rw [blocks]
    generalize hbefore : untagged.takeWhile (fun run ↦ run.entry ≤ index) = before
    generalize hafter : untagged.dropWhile (fun run ↦ run.entry ≤ index) = after
    -- The runs before this entry go to its place; by the order, all others belong to later ones.
    have hsplit : before ++ after = untagged := by
      rw [← hbefore, ← hafter]
      exact List.takeWhile_append_dropWhile
    have hlater : ∀ run ∈ after, index < run.entry :=
      fun run hrun ↦ lt_of_mem_dropWhile horder (hafter ▸ hrun)
    have hle : ∀ run ∈ before, run.entry ≤ index :=
      fun run hrun ↦ le_of_mem_takeWhile (hbefore ▸ hrun)
    subst hsplit
    have hhere : ∀ run ∈ before, run.entry = index :=
      fun run hrun ↦ le_antisymm (hle run hrun) (hindex run (List.mem_append_left _ hrun))
    have hcount' : ∀ run ∈ after, run.entry ≤ index + 1 + rest.length := by
      intro run hrun
      have := hcount run (List.mem_append_right _ hrun)
      rw [List.length_cons] at this
      omega
    have hrange : List.range (rest.length + 1 + 1) =
        0 :: (List.range (rest.length + 1)).map Nat.succ := List.range_succ_eq_map
    rw [ih (index + 1) after (List.pairwise_append.1 horder).2.1 hlater hcount', List.length_cons,
      hrange, List.flatMap_cons, List.flatMap_map]
    congr 1
    · exact (linesAt_append_of_eq (e := some entry) hhere hlater).symm
    · refine congrArg (List.flatMap · _) (funext fun i ↦ ?_)
      have hbelow : ∀ run ∈ before, run.entry < index + i.succ := by
        intro run hrun
        rw [hhere run hrun]
        omega
      rw [linesAt_append_of_lt hbelow, List.getElem?_cons_succ, Nat.succ_eq_add_one]
      congr 1
      omega

end Render

/-! ### Runs and fields -/

namespace Reply

variable {untagged : Option String} {place index : ℕ} {entries : List (String × Entry)}

/-- The fields of the entries alone. -/
def ownFields (entries : List (String × Entry)) : List (String × Json) :=
  entries.map fun (key, e) ↦ (key, e.toJson)

theorem fields_of_lt (h : place < index) : fields untagged place index entries = ownFields entries := by
  induction entries generalizing index with
  | nil => simp [fields, fields.untaggedIf, ownFields, Nat.not_le.2 h]
  | cons e rest ih =>
    have hne : (index == place) = false := beq_eq_false_iff_ne.2 h.ne'
    rw [fields, hne, ih (h.trans (Nat.lt_succ_self index))]
    simp [fields.untaggedIf, ownFields]

theorem fields_of_le (h : index ≤ place) : fields untagged place index entries =
    (ownFields entries).take (place - index) ++
      (untagged.map fun text ↦ (untaggedKey, Json.string text)).toList ++
        (ownFields entries).drop (place - index) := by
  induction entries generalizing index with
  | nil => simp [fields, fields.untaggedIf, ownFields, h]
  | cons e rest ih =>
    rw [fields]
    rcases h.eq_or_lt with rfl | hlt
    · rw [fields_of_lt (Nat.lt_succ_self index), beq_self_eq_true, Nat.sub_self]
      simp [fields.untaggedIf, ownFields]
    · have hne : (index == place) = false := beq_eq_false_iff_ne.2 hlt.ne
      obtain ⟨n, hn⟩ : ∃ n, place - index = n + 1 := ⟨place - index - 1, by omega⟩
      have hn' : place - (index + 1) = n := by omega
      rw [hne, ih hlt, hn, hn']
      simp [fields.untaggedIf, ownFields]

theorem untaggedField?_eq (r : Reply) : r.untaggedField? =
    if r.untagged = [] ∨ untaggedKey ∈ r.keys then none
    else some ("\n".intercalate (r.untagged.map Untagged.text)) := by
  rw [untaggedField?, untaggedText?]
  by_cases hempty : r.untagged = []
  · simp [hempty]
  · by_cases hkey : untaggedKey ∈ r.keys <;> simp [hempty, hkey]

theorem notMem_keys_of_untaggedField? {r : Reply} {text : String} (h : r.untaggedField? = some text) :
    untaggedKey ∉ r.keys := by
  rw [untaggedField?_eq] at h
  split at h
  · cases h
  · next hnot => exact fun hkey ↦ hnot (.inr hkey)

theorem length_fields (r : Reply) (place : ℕ) :
    (fields r.untaggedField? place 0 r.entries).length = r.fieldCount := by
  have htake : ((ownFields r.entries).take place).length + ((ownFields r.entries).drop place).length =
      r.entries.length := by
    rw [← List.length_append, List.take_append_drop, ownFields, List.length_map]
  have hone : ((r.untaggedField?.map fun text ↦ (untaggedKey, Json.string text)).toList).length =
      if r.untaggedField?.isSome then 1 else 0 := by
    cases r.untaggedField? <;> rfl
  rw [fields_of_le (Nat.zero_le _), Nat.sub_zero, List.length_append, List.length_append, hone,
    fieldCount]
  omega

theorem nodup_map_fst_fields {r : Reply} (h : r.keys.Nodup) (place : ℕ) :
    ((fields r.untaggedField? place 0 r.entries).map Prod.fst).Nodup := by
  have hkeys : (ownFields r.entries).map Prod.fst = r.keys := by
    rw [ownFields, List.map_map]
    rfl
  rw [fields_of_le (Nat.zero_le _), Nat.sub_zero, List.map_append, List.map_append, List.map_take,
    List.map_drop, hkeys]
  cases hfield : r.untaggedField? with
  | none => simpa using h
  | some text =>
    have hmiddle : (r.keys.take place ++ untaggedKey :: r.keys.drop place).Nodup := by
      rw [List.perm_middle.nodup_iff, List.take_append_drop]
      exact List.nodup_cons.2 ⟨notMem_keys_of_untaggedField? hfield, h⟩
    simpa using hmiddle

end Reply

/-! ### Runs that are read from a text -/

namespace Outline

variable {o : Outline}

/-- The loose runs are in order, and none stands behind a node that is still to come. -/
def IsOrdered (o : Outline) : Prop :=
  (o.loose.map Loose.afterNodes ++ [o.nodes.length]).Pairwise (· ≤ ·)

theorem isOrdered_extend (h : o.IsOrdered) (s : List Char) : (o.extend s).IsOrdered := by
  unfold extend
  split <;> exact h

theorem isOrdered_addRun (h : o.IsOrdered) (stack : List OpenTag) (run pending : List Char) :
    IsOrdered ⟨stack, o.nodes, Loose.addRun o.loose o.nodes.length run, pending⟩ := by
  unfold Loose.addRun
  split
  · rwa [List.append_nil]
  · unfold IsOrdered
    rw [List.map_append, List.pairwise_append]
    refine ⟨h, List.pairwise_singleton .., ?_⟩
    intro a ha b hb
    rw [List.mem_singleton.1 hb]
    rcases List.mem_append.1 ha with ha | ha
    · exact (List.pairwise_append.1 h).2.2 a ha _ List.mem_cons_self
    · exact (List.mem_singleton.1 ha).le

theorem isOrdered_addNode (h : o.IsOrdered) (stack : List OpenTag) (pending : List Char) (n : Node) :
    IsOrdered (addNode ⟨stack, o.nodes, o.loose, pending⟩ n) := by
  cases stack with
  | cons top outer => exact h
  | nil =>
    obtain ⟨hloose, -, hcount⟩ := List.pairwise_append.1 h
    refine List.pairwise_append.2 ⟨hloose, List.pairwise_singleton .., ?_⟩
    intro a ha b hb
    have hlength : b = o.nodes.length + 1 := (List.mem_singleton.1 hb).trans List.length_append
    rw [hlength]
    exact (hcount a ha _ List.mem_cons_self).trans (Nat.le_succ _)

theorem isOrdered_take (h : o.IsOrdered) (token : Token) : (o.take v token).IsOrdered := by
  cases token with
  | text run => exact isOrdered_extend h run
  | tag t =>
    cases takes v o t with
    | text _ htake =>
      rw [htake]
      exact isOrdered_extend h _
    | stray _ htake =>
      rw [htake, flush_eq]
      exact isOrdered_addRun h ..
    | opens _ _ htake =>
      rw [htake]
      exact isOrdered_addRun h ..
    | closes node outer _ _ _ htake =>
      rw [htake]
      exact isOrdered_addNode h ..

theorem isOrdered_read (v : Vocabulary) (s : List Char) : (read v {} s).IsOrdered := by
  have hempty : IsOrdered {} := List.pairwise_singleton ..
  exact read_keeps (P := IsOrdered) (fun _ token ho ↦ isOrdered_take ho token) hempty s

end Outline

theorem Document.pairwise_loose_parse (v : Vocabulary) (text : String) :
    (Document.parse v text).loose.Pairwise fun a b ↦ a.afterNodes ≤ b.afterNodes := by
  have h := Outline.isOrdered_read v text.toList
  rw [Outline.parse_eq_finish]
  generalize Outline.read v {} text.toList = o at h
  have hlast := Outline.isOrdered_addRun h [] (v.withoutFragment o.pending) []
  rw [Outline.finish, Outline.loose_addLoose]
  exact List.pairwise_map.1 (List.pairwise_append.1 hlast).1

/-- The untagged runs are in order, and none stands behind an entry that is still to come. -/
theorem Reply.pairwise_untagged (v : Vocabulary) (d : Document) :
    ((ofDocument v d).untagged.map Untagged.entry ++ [(ofDocument v d).entries.length]).Pairwise
      (· ≤ ·) := by
  rw [untagged_ofDocument, length_entries (entries_ofDocument v d), List.map_map]
  refine List.pairwise_append.2 ⟨List.pairwise_map.2 ?_, List.pairwise_singleton .., ?_⟩
  · exact (Loose.pairwise_placed 0 d.loose).imp fun h ↦
      Node.keyCount_mono (List.take_prefix_take_left h)
  · intro a ha b hb
    obtain ⟨run, -, rfl⟩ := List.mem_map.1 ha
    rw [List.mem_singleton.1 hb]
    exact Node.keyCount_mono (List.take_prefix _ _)

theorem Reply.lines_eq {r : Reply}
    (h : (r.untagged.map Untagged.entry ++ [r.entries.length]).Pairwise (· ≤ ·)) :
    r.lines = (List.range (r.entries.length + 1)).flatMap
      fun i ↦ Render.linesAt r r.untagged i r.entries[i]? := by
  obtain ⟨horder, -, hle⟩ := List.pairwise_append.1 h
  have hcount : ∀ run ∈ r.untagged, run.entry ≤ 0 + r.entries.length := by
    intro run hrun
    rw [Nat.zero_add]
    exact hle _ (List.mem_map_of_mem hrun) _ List.mem_cons_self
  have hblocks := Render.blocks_eq (r := r) 0 r.untagged r.entries (List.pairwise_map.1 horder)
    (fun run _ ↦ Nat.zero_le _) hcount
  simp only [Nat.zero_add] at hblocks
  exact hblocks

/-- Untagged text keeps its place and is put out once. The untagged runs are the loose runs, each
with the number of keys that the top-level nodes before it make. Every run is printed before the
block of the entry it precedes and behind the block before that, and every block once. In JSON one
field holds all untagged text, before the entry that its first run precedes; it is there unless there
is no such text or a tag has its key, and no two fields have the same key. -/
theorem Reply.ofDocument_keeps_untagged (v : Vocabulary) :
    (∀ d : Document, let r := ofDocument v d
      r.untagged.map Untagged.text = d.loose.map Loose.text ∧
      r.untagged = (Loose.placed 0 d.loose).map (untaggedAt v d.nodes) ∧
      (r.untagged.map Untagged.entry ++ [r.entries.length]).Pairwise (· ≤ ·) ∧
      r.lines = (List.range (r.entries.length + 1)).flatMap
        (fun i ↦ Render.linesAt r r.untagged i r.entries[i]?) ∧
      r.render = String.join (r.lines.map fun line ↦ line ++ "\n") ∧
      ∃ fields, r.toJson = .object fields ∧ fields.length = r.fieldCount ∧
        (fields.map Prod.fst).Nodup ∧
        fields =
          let place := (r.untagged.head?.map Untagged.entry).getD 0
          let text := if r.untagged = [] ∨ untaggedKey ∈ r.keys then none
            else some ("\n".intercalate (r.untagged.map Untagged.text))
          (ownFields r.entries).take place ++
            (text.map fun text ↦ (untaggedKey, Json.string text)).toList ++
              (ownFields r.entries).drop place) ∧
    ∀ text, (parse v text).untagged =
      (Document.parse v text).loose.map (untaggedAt v (Document.parse v text).nodes) := by
  constructor
  · intro d r
    have huntagged : r.untagged = (Loose.placed 0 d.loose).map (untaggedAt v d.nodes) :=
      untagged_ofDocument v d
    have horder := pairwise_untagged v d
    have hfields : fields r.untaggedField? ((r.untagged.head?.map Untagged.entry).getD 0) 0 r.entries =
        _ := fields_of_le (Nat.zero_le _)
    rw [Nat.sub_zero] at hfields
    refine ⟨?_, huntagged, horder, lines_eq horder, rfl, _, rfl, ?_, ?_, ?_⟩
    · rw [huntagged, List.map_map, ← Loose.map_text_placed 0 d.loose]
      rfl
    · exact length_fields r _
    · exact nodup_map_fst_fields (keys_ofDocument v d ▸ nodup_eraseDups _) _
    · rw [hfields, untaggedField?_eq]
  · intro text
    have hplaced := Loose.placed_of_pairwise (Document.pairwise_loose_parse v text)
      fun run _ ↦ Nat.zero_le _
    exact (untagged_ofDocument v _).trans (congrArg _ hplaced)

end AgentReply
