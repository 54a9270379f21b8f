import AgentReply.Proofs.Markup.HoldBack
import AgentReply.Proofs.Markup.Node
import AgentReply.Proofs.Markup.Outline

/-!
# Documents of texts that grow

While a text arrives its document is read again and again. What is finished stays as it is: the document
of a text differs from that of a longer text only at the last root, if it is unfinished, there only at
the last child, if it is unfinished, and so on down; and at the last run of loose text. Each step of the
reading extends the document that would result if the text ended there, and the beginning of a tag at
the end of a text is held back until it is known whether the tag comes.
-/

namespace AgentReply

/-- A list that has grown at its end: its elements are the first ones of the other list, but in the
place of the last one there may be another one that is related to it. -/
inductive GrowsAtEnd {α : Type} (R : α → α → Prop) : List α → List α → Prop
  | nil (ys : List α) : GrowsAtEnd R [] ys
  | last {x y : α} (ys : List α) : R x y → GrowsAtEnd R [x] (y :: ys)
  | cons (x : α) {xs ys : List α} : GrowsAtEnd R xs ys → GrowsAtEnd R (x :: xs) (x :: ys)

namespace GrowsAtEnd

variable {α : Type} {R : α → α → Prop} {xs ys zs : List α}

theorem of_isPrefix (h : xs <+: ys) : GrowsAtEnd R xs ys := by
  obtain ⟨more, rfl⟩ := h
  induction xs with
  | nil => exact .nil _
  | cons x xs ih => exact .cons x ih

theorem refl (xs : List α) : GrowsAtEnd R xs xs := of_isPrefix List.prefix_rfl

theorem append_left (zs : List α) (h : GrowsAtEnd R xs ys) : GrowsAtEnd R (zs ++ xs) (zs ++ ys) := by
  induction zs with
  | nil => exact h
  | cons z zs ih => exact .cons z ih

theorem trans (hR : ∀ x ∈ xs, ∀ y z, R x y → R y z → R x z) (hxy : GrowsAtEnd R xs ys)
    (hyz : GrowsAtEnd R ys zs) : GrowsAtEnd R xs zs := by
  induction hxy generalizing zs with
  | nil => exact .nil zs
  | @last x y ys h =>
    cases hyz with
    | last zs h' => exact .last zs (hR x (by simp) y _ h h')
    | cons _ _ => exact .last _ h
  | @cons x xs ys h ih =>
    cases hyz with
    | last zs h' =>
      cases h with
      | nil => exact .last zs h'
    | cons _ h' => exact .cons x (ih (fun y hy ↦ hR y (List.mem_cons_of_mem x hy)) h')

theorem getElem? (h : GrowsAtEnd R xs ys) {i : ℕ} {x : α} (hx : xs[i]? = some x) :
    ∃ y, ys[i]? = some y ∧ (y = x ∨ i + 1 = xs.length ∧ R x y) := by
  induction h generalizing i with
  | nil => simp at hx
  | last ys h =>
    cases i with
    | zero =>
      obtain rfl : _ = x := by simpa using hx
      exact ⟨_, rfl, .inr ⟨rfl, h⟩⟩
    | succ i => simp at hx
  | cons z h ih =>
    cases i with
    | zero => exact ⟨x, by simpa using hx, .inl rfl⟩
    | succ i => simpa using ih (by simpa using hx)

end GrowsAtEnd

/-- What an unfinished node may have become when more of the text is known. -/
inductive Node.Extends (v : Vocabulary) : Node → Node → Prop
  /-- A leaf that is not verbatim shows no less than before. -/
  | leaf {name s t : String} {complete : Bool}
      (h : v.isVerbatim name = false → s.toList <+: t.toList) :
      Extends v (.leaf name s false) (.leaf name t complete)
  | opened {name s : String} {children : List Node} {complete : Bool}
      (h : v.isVerbatim name = false) :
      Extends v (.leaf name s false) (.branch name children complete)
  | branch {name : String} {xs ys : List Node} {complete : Bool}
      (h : GrowsAtEnd (Extends v) xs ys) :
      Extends v (.branch name xs false) (.branch name ys complete)

namespace Node.Extends

variable {v : Vocabulary} {x y z : Node}

theorem refl_of_incomplete (h : x.complete = false) : x.Extends v x := by
  cases x with
  | leaf name text complete =>
    obtain rfl : complete = false := h
    exact .leaf fun _ ↦ List.prefix_rfl
  | branch name children complete =>
    obtain rfl : complete = false := h
    exact .branch (.refl _)

theorem complete_eq_false (h : x.Extends v y) : x.complete = false := by
  cases h <;> rfl

theorem name_eq (h : x.Extends v y) : y.name = x.name := by
  cases h <;> rfl

theorem trans (hxy : x.Extends v y) (hyz : y.Extends v z) : x.Extends v z := by
  induction x using Node.induction generalizing y z with
  | leaf name text complete =>
    cases hxy with
    | leaf h =>
      cases hyz with
      | leaf h' => exact .leaf fun hv ↦ (h hv).trans (h' hv)
      | opened h' => exact .opened h'
    | opened h =>
      cases hyz with
      | branch _ => exact .opened h
  | branch name children complete ih =>
    cases hxy with
    | branch h =>
      cases hyz with
      | branch h' => exact .branch (h.trans (fun a ha b c hab hbc ↦ ih a ha hab hbc) h')

end Node.Extends

/-- What a run of loose text may have become when more of the text is known. -/
def Loose.Extends (x y : Loose) : Prop :=
  y.afterNodes = x.afterNodes ∧ x.text.toList <+: y.text.toList

/-- What a document may have become when more of the text is known. -/
structure Document.Extends (v : Vocabulary) (d d' : Document) : Prop where
  nodes : GrowsAtEnd (Node.Extends v) d.nodes d'.nodes
  loose : GrowsAtEnd Loose.Extends d.loose d'.loose

theorem Document.Extends.trans {v : Vocabulary} {a b c : Document} (hab : a.Extends v b)
    (hbc : b.Extends v c) : a.Extends v c where
  nodes := hab.nodes.trans (fun _ _ _ _ h h' ↦ h.trans h') hbc.nodes
  loose := hab.loose.trans (fun _ _ _ _ h h' ↦ ⟨h'.1.trans h.1, h.2.trans h'.2⟩) hbc.loose

/-! ### Open tags -/

namespace OpenTag

variable {v : Vocabulary} {top : OpenTag} {f : List Char} {x y : Node}

theorem unfinished_extends_extend (hv : v.IsPlain) (t : OpenTag) (r : List Char) :
    (t.unfinished v).Extends v ((t.extend r).unfinished v) := by
  cases hc : t.children with
  | nil =>
    simp only [unfinished, toNode, extend, hc]
    refine .leaf fun hverb ↦ ?_
    simp only [hverb, Bool.false_eq_true, if_false, String.toList_ofList]
    exact Text.trim_prefix_trim (Vocabulary.withoutFragment_prefix_append hv _ r)
  | cons c cs =>
    simp only [unfinished, toNode, extend, hc]
    exact .branch (.refl _)

/-- A tag that ends shows at least what was shown while the tag that ends it was arriving. -/
theorem unfinished_extends_closed (hv : v.IsPlain) (hf : Tag.Begins v f) (t : OpenTag) (c : Bool) :
    ((t.extend f).unfinished v).Extends v (t.closed v c) := by
  cases hc : t.children with
  | nil =>
    simp only [unfinished, closed, toNode, extend, hc]
    refine .leaf fun hverb ↦ ?_
    simp only [hverb, Bool.false_eq_true, if_false, String.toList_ofList]
    exact Text.trim_prefix_trim (Vocabulary.withoutFragment_append_isPrefix hv hf _)
  | cons c cs =>
    simp only [unfinished, closed, toNode, extend, hc]
    exact .branch (.refl _)

theorem unfinished_extends_addChild (h : v.isVerbatim top.name = false) (f : List Char) (n : Node) :
    ((top.extend f).unfinished v).Extends v ((top.addChild n).unfinished v) := by
  rw [unfinished_addChild]
  cases hc : top.children with
  | nil =>
    simp only [unfinished, toNode, extend, hc]
    exact .opened h
  | cons c cs =>
    simp only [unfinished, toNode, extend, hc]
    exact .branch (.of_isPrefix (List.prefix_append _ _))

theorem addChild_extends (h : x.Extends v y) (t : OpenTag) (c : Bool) :
    Node.Extends v (.branch t.name (t.children ++ [x]) false)
      (.branch t.name (t.children ++ [y]) c) :=
  .branch (.append_left _ (.last [] h))

theorem settle_some_grows (h : x.Extends v y) (stack : List OpenTag) :
    GrowsAtEnd (Node.Extends v) (settle v (some x) stack).toList
      (settle v (some y) stack).toList := by
  induction stack generalizing x y with
  | nil => exact .last [] h
  | cons top outer ih =>
    rw [settle_some_cons, settle_some_cons]
    exact ih (addChild_extends h top false)

/-- Closing a tag from the inside keeps what an unfinished inner node has shown. -/
theorem exists_settle_eq_of_closeNamed? {name : String} {node : Node} {stack outer : List OpenTag}
    (h : x.Extends v y) (hc : closeNamed? v name (some y) stack = some (node, outer)) :
    ∃ z, settle v (some x) stack = settle v (some z) outer ∧ z.Extends v node := by
  induction stack generalizing x y with
  | nil => simp at hc
  | cons top rest ih =>
    rw [closeNamed?_some_cons, closed_addChild, closed_addChild] at hc
    rw [settle_some_cons]
    split at hc
    · obtain ⟨rfl, rfl⟩ := Prod.mk.inj (Option.some.inj hc)
      exact ⟨_, rfl, addChild_extends h top true⟩
    · exact ih (addChild_extends h top false) hc

/-- The innermost tag may still have been showing text when the tag that closes it, or one further
out, began to arrive. -/
theorem settle_grows_of_closeNamed? {name : String} {node : Node} {outer rest : List OpenTag}
    (hv : v.IsPlain) (hf : Tag.Begins v f)
    (hc : closeNamed? v name none (top :: outer) = some (node, rest)) :
    GrowsAtEnd (Node.Extends v) (settle v (some ((top.extend f).unfinished v)) outer).toList
      (settle v (some node) rest).toList := by
  rw [closeNamed?_none_cons] at hc
  split at hc
  · obtain ⟨rfl, rfl⟩ := Prod.mk.inj (Option.some.inj hc)
    exact settle_some_grows (unfinished_extends_closed hv hf top true) _
  · obtain ⟨z, hz, hnode⟩ :=
      exists_settle_eq_of_closeNamed? (unfinished_extends_closed hv hf top false) hc
    rw [hz]
    exact settle_some_grows hnode rest

end OpenTag

/-! ### Steps of the reading -/

namespace Outline

variable {v : Vocabulary} {o : Outline} {t : Tag} {f : List Char}

theorem addRun_grows {a b : List Char} (h : a <+: b) (loose : List Loose) (count : ℕ) :
    GrowsAtEnd Loose.Extends (Loose.addRun loose count a) (Loose.addRun loose count b) := by
  apply GrowsAtEnd.append_left
  have htrim := Text.trim_prefix_trim h
  by_cases ha : Text.trim a = []
  · rw [if_pos ha]
    exact .nil _
  · have hb : Text.trim b ≠ [] := fun hb ↦ ha (List.prefix_nil.1 (hb ▸ htrim))
    rw [if_neg ha, if_neg hb]
    exact .last [] ⟨rfl, by simpa using htrim⟩

theorem finish_extends_extend (hv : v.IsPlain) (ho : o.IsTidy) (r : List Char) :
    (o.finish v).Extends v ((o.extend r).finish v) := by
  obtain ⟨stack, nodes, loose, pending⟩ := o
  cases stack with
  | nil =>
    rw [extend, finish_of_stack_nil, finish_of_stack_nil]
    exact ⟨.refl _, addRun_grows (Vocabulary.withoutFragment_prefix_append hv _ r) _ _⟩
  | cons top outer =>
    obtain rfl : pending = [] := ho (List.cons_ne_nil _ _)
    rw [extend, finish_of_pending_nil, finish_of_pending_nil]
    refine ⟨.append_left _ ?_, .refl _⟩
    exact OpenTag.settle_some_grows (OpenTag.unfinished_extends_extend hv top r) outer

/-- Outside every tag, the text before a tag becomes a run, and its tail `f` belongs to the tag. -/
theorem finish_extends_flush (hv : v.IsPlain) (hf : Tag.Begins v f) (nodes : List Node)
    (loose : List Loose) (pending : List Char) (stack : List OpenTag) :
    Document.Extends v (finish v (extend ⟨[], nodes, loose, pending⟩ f))
      (finish v ⟨stack, nodes, Loose.addRun loose nodes.length pending, []⟩) := by
  rw [extend, finish_of_stack_nil, finish_of_pending_nil]
  exact ⟨.of_isPrefix (List.prefix_append _ _),
    addRun_grows (Vocabulary.withoutFragment_append_isPrefix hv hf pending) loose nodes.length⟩

/-- The step of a tag, of which the beginning `f` was there before. -/
theorem finish_extends_take (hv : v.IsPlain) (ho : o.IsTidy) (hf : Tag.Begins v f)
    (hlex : f <+: t.lexeme) : ((o.extend f).finish v).Extends v ((o.take v (.tag t)).finish v) := by
  cases takes v o t with
  | text _ htake =>
    obtain ⟨g, hg⟩ := hlex
    rw [htake, ← hg, ← extend_extend]
    exact finish_extends_extend hv (isTidy_extend ho f) g
  | stray hs htake =>
    obtain ⟨stack, nodes, loose, pending⟩ := o
    obtain rfl : stack = [] := hs
    rw [htake, flush_eq]
    exact finish_extends_flush hv hf nodes loose pending []
  | opens hi hc htake =>
    rw [htake]
    obtain ⟨stack, nodes, loose, pending⟩ := o
    cases stack with
    | nil => exact finish_extends_flush hv hf nodes loose pending [⟨t.name, [], []⟩]
    | cons top outer =>
      have hverb : v.isVerbatim top.name = false := by simpa [hc] using hi
      obtain rfl : pending = [] := ho (List.cons_ne_nil _ _)
      rw [Loose.addRun_nil, extend, finish_of_pending_nil, finish_of_pending_nil]
      refine ⟨.append_left _ ?_, .refl _⟩
      exact OpenTag.settle_some_grows (OpenTag.unfinished_extends_addChild hverb f _) outer
  | closes node rest _ _ hn htake =>
    rw [htake]
    obtain ⟨stack, nodes, loose, pending⟩ := o
    cases stack with
    | nil => cases hn
    | cons top outer =>
      obtain rfl : pending = [] := ho (List.cons_ne_nil _ _)
      rw [finish_addNode, extend, finish_of_pending_nil, OpenTag.settle_none_cons]
      exact ⟨.append_left _ (OpenTag.settle_grows_of_closeNamed? hv hf hn), .refl _⟩

theorem finish_extends_read (hv : v.IsPlain) (ho : o.IsTidy) (s : List Char) :
    (o.finish v).Extends v ((read v o s).finish v) := by
  induction s using Token.scan.induct v generalizing o with
  | case1 =>
    rw [read_nil]
    simpa using finish_extends_extend hv ho []
  | case2 c s t rest h ih =>
    rw [read_of_tag h]
    have ht := (Tag.read?_eq_some_iff.1 h).1
    have hstep := finish_extends_take (t := t) hv ho (f := [])
      ⟨t, ht, t.lexeme, by simp [Tag.lexeme], rfl⟩ List.nil_prefix
    rw [extend_nil] at hstep
    exact hstep.trans (ih (isTidy_take ho _))
  | case3 c s h ih =>
    rw [read_of_char h]
    exact (finish_extends_extend hv ho [c]).trans (ih (isTidy_extend ho _))

end Outline

theorem Document.parse_extends_append {v : Vocabulary} (hv : v.IsPlain) (s e : String) :
    (parse v s).Extends v (parse v (s ++ e)) := by
  have htidy : ∀ s : List Char, (Outline.read v {} s).IsTidy :=
    Outline.isTidy_read Outline.isTidy_empty
  rw [Outline.parse_eq_finish, Outline.parse_eq_finish, String.toList_append]
  cases Outline.readsOn v {} s.toList e.toList with
  | clean hread =>
    rw [hread]
    exact Outline.finish_extends_read hv (htidy _) _
  | @inside s' rest f g t ht hg hlex _ hcut hread =>
    rw [hcut, hread]
    refine (Outline.finish_extends_take hv (htidy s') ⟨t, ht, g, hg, hlex⟩ ?_).trans
      (Outline.finish_extends_read hv (Outline.isTidy_take (htidy s') _) rest)
    rw [hlex]
    exact List.prefix_append f g

/-- What is known of a document is not taken back when the text goes on. A complete root is the same at
the same place. An unfinished one has the same name, and so on down its last children; a leaf of it that
is not verbatim has become a branch or shows no less. Loose runs stay in their places, and only the last
of them may have grown. -/
theorem parse_append_keeps {v : Vocabulary} (hv : v.IsPlain) (s e : String) :
    (∀ (i : ℕ) (n : Node), (Document.parse v s).nodes[i]? = some n → n.complete = true →
      (Document.parse v (s ++ e)).nodes[i]? = some n) ∧
    (∀ (i : ℕ) (n : Node), (Document.parse v s).nodes[i]? = some n → n.complete = false →
      ∃ m, (Document.parse v (s ++ e)).nodes[i]? = some m ∧ n.Extends v m) ∧
    ∀ (i : ℕ) (x : Loose), (Document.parse v s).loose[i]? = some x →
      ∃ y, (Document.parse v (s ++ e)).loose[i]? = some y ∧ y.afterNodes = x.afterNodes ∧
        x.text.toList <+: y.text.toList ∧
          (i + 1 < (Document.parse v s).loose.length → y = x) := by
  have h := Document.parse_extends_append hv s e
  refine ⟨?_, ?_, ?_⟩
  · intro i n hn hc
    obtain ⟨m, hm, rfl | ⟨-, hext⟩⟩ := h.nodes.getElem? hn
    · exact hm
    · simp [hext.complete_eq_false] at hc
  · intro i n hn hc
    obtain ⟨m, hm, rfl | ⟨-, hext⟩⟩ := h.nodes.getElem? hn
    · exact ⟨m, hm, Node.Extends.refl_of_incomplete hc⟩
    · exact ⟨m, hm, hext⟩
  · intro i x hx
    obtain ⟨y, hy, rfl | ⟨hlast, hext⟩⟩ := h.loose.getElem? hx
    · exact ⟨y, hy, rfl, List.prefix_rfl, fun _ ↦ rfl⟩
    · exact ⟨y, hy, hext.1, hext.2, fun hlt ↦ by omega⟩

theorem parse_append_keeps_held_back :
    Vocabulary.standard.IsPlain ∧
      ∃ m, (Document.parse .standard
          ("Hi <response><type>a</type><thought>b </Tho" ++ "ught >c")).nodes[0]? = some m ∧
        Node.Extends .standard
          (.branch "response" [.leaf "type" "a" true, .leaf "thought" "b" false] false) m := by
  have hv : Vocabulary.standard.IsPlain := by decide +kernel
  have hparse : Document.parse .standard "Hi <response><type>a</type><thought>b </Tho" =
      ⟨[.branch "response" [.leaf "type" "a" true, .leaf "thought" "b" false] false],
        [⟨"Hi", 0⟩]⟩ := by decide +kernel
  refine ⟨hv, (parse_append_keeps hv _ _).2.1 0 _ ?_ rfl⟩
  rw [hparse]
  rfl

end AgentReply
