import AgentReply.Proofs.Markup.Arriving
import AgentReply.Proofs.Reply.Grouping

/-!
# Keys of replies that grow

The keys of a reply are the names of its nodes outside of envelopes. When more of the text is known
only the last nodes change, and a node keeps its name. So the keys that are there stay where they
are, but for one case. An envelope that has text and no child stands under its own name; when a
child opens in it, its text is no longer kept and the names of its children take its place.
-/

namespace AgentReply

variable {v : Vocabulary}

theorem GrowsAtEnd.isPrefix_or_exists {α : Type} {R : α → α → Prop} {xs ys : List α}
    (h : GrowsAtEnd R xs ys) :
    xs <+: ys ∨ ∃ init x y more, xs = init ++ [x] ∧ ys = init ++ y :: more ∧ R x y := by
  induction h with
  | nil ys => exact .inl List.nil_prefix
  | @last x y ys h => exact .inr ⟨[], x, y, ys, rfl, rfl, h⟩
  | cons z h ih =>
    rcases ih with hpre | ⟨init, x, y, more, rfl, rfl, hxy⟩
    · exact .inl (List.cons_prefix_cons.2 ⟨rfl, hpre⟩)
    · exact .inr ⟨z :: init, x, y, more, rfl, rfl, hxy⟩

theorem eraseDups_isPrefix {a b : List String} (h : a <+: b) : a.eraseDups <+: b.eraseDups := by
  obtain ⟨more, rfl⟩ := h
  rw [List.eraseDups_append]
  exact List.prefix_append _ _

/-! ### Names that stay -/

/-- The names in `b` begin with those in `a`, only the last of which may be missing, if it is one of
those that `gone` allows. -/
def NamesStay (gone : String → Prop) (a b : List String) : Prop :=
  a <+: b ∨ ∃ kept name, gone name ∧ a = kept ++ [name] ∧ kept <+: b

namespace NamesStay

variable {gone gone' : String → Prop} {a b : List String}

theorem mono (h : NamesStay gone a b) (hgone : ∀ name, gone name → gone' name) :
    NamesStay gone' a b := by
  rcases h with hpre | ⟨kept, name, hname, rfl, hkept⟩
  · exact .inl hpre
  · exact .inr ⟨kept, name, hgone name hname, rfl, hkept⟩

theorem append_left (h : NamesStay gone a b) (c : List String) :
    NamesStay gone (c ++ a) (c ++ b) := by
  rcases h with hpre | ⟨kept, name, hname, rfl, hkept⟩
  · exact .inl ((List.prefix_append_right_inj c).2 hpre)
  · refine .inr ⟨c ++ kept, name, hname, (List.append_assoc ..).symm, ?_⟩
    exact (List.prefix_append_right_inj c).2 hkept

theorem append_right (h : NamesStay gone a b) (c : List String) : NamesStay gone a (b ++ c) := by
  rcases h with hpre | ⟨kept, name, hname, rfl, hkept⟩
  · exact .inl (hpre.trans (List.prefix_append b c))
  · exact .inr ⟨kept, name, hname, rfl, hkept.trans (List.prefix_append b c)⟩

/-- A name that was there before stays even if its last occurrence goes. -/
theorem eraseDups (h : NamesStay gone a b) : NamesStay gone a.eraseDups b.eraseDups := by
  rcases h with hpre | ⟨kept, name, hname, rfl, hkept⟩
  · exact .inl (eraseDups_isPrefix hpre)
  · rw [eraseDups_concat]
    split
    · exact .inl (eraseDups_isPrefix hkept)
    · exact .inr ⟨_, name, hname, rfl, eraseDups_isPrefix hkept⟩

end NamesStay

/-! ### Envelopes with text -/

/-- An unfinished envelope, in envelopes only, was a leaf with text and has become a branch. What
stands at a path is told by `before` and `after`. -/
def EnvelopeOpens (v : Vocabulary) (before after : List ℕ → Option Node) (name : String) : Prop :=
  ∃ path text children complete,
    (∀ p n, p <+: path → before p = some n → v.isEnvelope n.name = true) ∧
    Text.isBlankText text = false ∧ before path = some (.leaf name text false) ∧
    after path = some (.branch name children complete)

/-- No unfinished envelope that is verbatim loses any of its text. -/
def KeepsEnvelopes (v : Vocabulary) (before after : List ℕ → Option Node) : Prop :=
  ∀ path name text later complete, v.isVerbatim name = true → v.isEnvelope name = true →
    before path = some (.leaf name text false) → after path = some (.leaf name later complete) →
      text.toList <+: later.toList

section Child

variable {before after : List ℕ → Option Node} {x y : Node}

/-- An envelope that opens in a child opens in the node around it, if that is an envelope. -/
theorem EnvelopeOpens.of_child {name : String} {i : ℕ}
    (hroot : ∀ n, before [] = some n → v.isEnvelope n.name = true)
    (hbefore : ∀ path, before (i :: path) = x.at? path)
    (hafter : ∀ path, after (i :: path) = y.at? path) (h : EnvelopeOpens v x.at? y.at? name) :
    EnvelopeOpens v before after name := by
  obtain ⟨path, text, children, complete, henvelopes, hblank, hx, hy⟩ := h
  refine ⟨i :: path, text, children, complete, ?_, hblank, by rw [hbefore, hx], by rw [hafter, hy]⟩
  intro p n hp hn
  rcases List.prefix_cons_iff.1 hp with rfl | ⟨q, rfl, hq⟩
  · exact hroot n hn
  · rw [hbefore] at hn
    exact henvelopes q n hq hn

theorem KeepsEnvelopes.child {i : ℕ} (h : KeepsEnvelopes v before after)
    (hbefore : ∀ path, before (i :: path) = x.at? path)
    (hafter : ∀ path, after (i :: path) = y.at? path) : KeepsEnvelopes v x.at? y.at? := by
  intro path name text later complete hverb henvelope hx hy
  rw [← hbefore] at hx
  rw [← hafter] at hy
  exact h (i :: path) name text later complete hverb henvelope hx hy

end Child

namespace Node

variable {xs ys : List Node} {x y : Node}

theorem liftAll_append (a b : List Node) : liftAll v (a ++ b) = liftAll v a ++ liftAll v b := by
  induction a with
  | nil => simp
  | cons n a ih => rw [List.cons_append, liftAll_cons, liftAll_cons, ih, List.append_assoc]

/-- The names outside of envelopes. -/
def names (v : Vocabulary) (nodes : List Node) : List String := (liftAll v nodes).map name

theorem names_append (a b : List Node) : names v (a ++ b) = names v a ++ names v b := by
  rw [names, liftAll_append, List.map_append]
  rfl

theorem names_cons (n : Node) (nodes : List Node) :
    names v (n :: nodes) = names v [n] ++ names v nodes :=
  names_append [n] nodes

theorem namesStay_of_growsAtEnd {before after : List ℕ → Option Node}
    (hroot : ∀ n, before [] = some n → v.isEnvelope n.name = true)
    (hbefore : ∀ i path, before (i :: path) = (xs[i]?).bind fun c ↦ c.at? path)
    (hafter : ∀ i path, after (i :: path) = (ys[i]?).bind fun c ↦ c.at? path)
    (hkeeps : KeepsEnvelopes v before after) (h : GrowsAtEnd (Extends v) xs ys)
    (ih : ∀ x ∈ xs, ∀ y, x.Extends v y → KeepsEnvelopes v x.at? y.at? →
      NamesStay (EnvelopeOpens v x.at? y.at?) (names v [x]) (names v [y])) :
    NamesStay (EnvelopeOpens v before after) (names v xs) (names v ys) := by
  rcases h.isPrefix_or_exists with ⟨more, rfl⟩ | ⟨init, x, y, more, rfl, rfl, hxy⟩
  · left
    rw [names_append]
    exact List.prefix_append _ _
  · -- only the last of the old nodes has changed, and it stands at the same index
    have hx : ∀ path, before (init.length :: path) = x.at? path := by
      intro path
      simp [hbefore]
    have hy : ∀ path, after (init.length :: path) = y.at? path := by
      intro path
      simp [hafter]
    have hlast : NamesStay (EnvelopeOpens v x.at? y.at?) (names v [x]) (names v [y]) :=
      ih x (by simp) y hxy (hkeeps.child hx hy)
    rw [names_append, names_append, names_cons y more]
    apply NamesStay.append_left
    apply NamesStay.append_right
    exact hlast.mono fun name hname ↦ hname.of_child hroot hx hy

theorem names_leaf (name text : String) (complete : Bool) :
    names v [.leaf name text complete] =
      if v.isEnvelope name && Text.isBlankText text then [] else [name] := by
  rw [names, liftAll_cons, lift]
  split <;> simp

theorem names_branch (name : String) (children : List Node) (complete : Bool) :
    names v [.branch name children complete] =
      if v.isEnvelope name then names v children else [name] := by
  rw [names, liftAll_cons, lift]
  split <;> simp [names]

theorem isBlankText_of_isPrefix {s t : String} (h : s.toList <+: t.toList)
    (hs : Text.isBlankText s = false) : Text.isBlankText t = false := by
  rw [← Bool.not_eq_true, Text.isBlankText, List.all_eq_true] at hs ⊢
  exact fun ht ↦ hs fun c hc ↦ ht c (h.subset hc)

theorem names_of_not_isEnvelope (h : v.isEnvelope x.name = false) : names v [x] = [x.name] := by
  cases x with
  | leaf name text complete =>
    rw [names_leaf, show v.isEnvelope name = false from h]
    rfl
  | branch name children complete =>
    rw [names_branch, show v.isEnvelope name = false from h]
    rfl

theorem Extends.namesStay_of_not_isEnvelope {gone : String → Prop} (h : x.Extends v y)
    (he : v.isEnvelope x.name = false) : NamesStay gone (names v [x]) (names v [y]) := by
  left
  rw [names_of_not_isEnvelope he, names_of_not_isEnvelope (h.name_eq ▸ he), h.name_eq]

/-- An envelope without children keeps its name while it has text, unless a child opens in it. -/
theorem Extends.namesStay_leaf {name text : String} {complete : Bool}
    (he : v.isEnvelope name = true) (h : (Node.leaf name text complete).Extends v y)
    (hkeeps : KeepsEnvelopes v (Node.leaf name text complete).at? y.at?) :
    NamesStay (EnvelopeOpens v (Node.leaf name text complete).at? y.at?)
      (names v [.leaf name text complete]) (names v [y]) := by
  rw [names_leaf, he, Bool.true_and]
  cases hblank : Text.isBlankText text with
  | true => exact .inl List.nil_prefix
  | false =>
    cases h with
    | @leaf _ _ later complete h =>
      have hpre : text.toList <+: later.toList := by
        cases hverb : v.isVerbatim name with
        | false => exact h hverb
        | true => exact hkeeps [] name text later complete hverb he rfl rfl
      left
      rw [names_leaf, isBlankText_of_isPrefix hpre hblank, Bool.and_false]
    | @opened _ _ children complete h =>
      right
      refine ⟨[], name, ?_, rfl, List.nil_prefix⟩
      refine ⟨[], text, children, complete, ?_, hblank, rfl, rfl⟩
      intro p n hp hn
      obtain rfl := List.prefix_nil.1 hp
      cases hn
      exact he

/-- The names of an unfinished node stay, but that of an envelope that opens. -/
theorem Extends.namesStay (h : x.Extends v y) (hkeeps : KeepsEnvelopes v x.at? y.at?) :
    NamesStay (EnvelopeOpens v x.at? y.at?) (names v [x]) (names v [y]) := by
  induction x using Node.induction generalizing y with
  | leaf name text complete =>
    cases he : v.isEnvelope name with
    | false => exact h.namesStay_of_not_isEnvelope he
    | true => exact h.namesStay_leaf he hkeeps
  | branch name children complete ih =>
    cases he : v.isEnvelope name with
    | false => exact h.namesStay_of_not_isEnvelope he
    | true =>
      cases h with
      | @branch _ _ ys complete h =>
        rw [names_branch, names_branch, if_pos he, if_pos he]
        refine namesStay_of_growsAtEnd ?_ (fun _ _ ↦ rfl) (fun _ _ ↦ rfl) hkeeps h
          fun x hx y hxy ↦ ih x hx hxy
        intro n hn
        cases hn
        exact he

end Node

theorem Document.Extends.keysStay {d d' : Document} (h : d.Extends v d')
    (hkeeps : KeepsEnvelopes v d.at? d'.at?) :
    NamesStay (EnvelopeOpens v d.at? d'.at?) (Reply.ofDocument v d).keys
      (Reply.ofDocument v d').keys := by
  rw [Reply.keys_ofDocument, Reply.keys_ofDocument]
  refine NamesStay.eraseDups (Node.namesStay_of_growsAtEnd ?_ (fun _ _ ↦ rfl) (fun _ _ ↦ rfl)
    hkeeps h.nodes fun x _ y hxy hkeeps ↦ hxy.namesStay hkeeps)
  intro n hn
  cases hn

/-- As a text goes on its keys stay where they are, with one exception: an unfinished envelope, in
envelopes only, that has text and no child is the last key itself, and when a child opens in it that
key goes. An envelope that is verbatim must not end with a closing tag that lacks its `>` and has
blanks behind its name. -/
theorem parse_append_keeps_keys (hv : v.IsPlain) (s e : String)
    (hpadded : ∀ t ∈ (Outline.read v {} s.toList).stack, v.isVerbatim t.name = true →
      v.isEnvelope t.name = true → ¬v.EndsPadded t.name t.payload) :
    (Reply.parse v s).keys <+: (Reply.parse v (s ++ e)).keys ∨
      ∃ kept name path text children complete,
        (Reply.parse v s).keys = kept ++ [name] ∧ kept <+: (Reply.parse v (s ++ e)).keys ∧
        (∀ p n, p <+: path → (Document.parse v s).at? p = some n → v.isEnvelope n.name = true) ∧
        Text.isBlankText text = false ∧
        (Document.parse v s).at? path = some (.leaf name text false) ∧
        (Document.parse v (s ++ e)).at? path = some (.branch name children complete) := by
  have hkeeps : KeepsEnvelopes v (Document.parse v s).at? (Document.parse v (s ++ e)).at? := by
    intro path name text later complete hverb he hs hse
    refine Document.verbatim_isPrefix_append hv hverb ?_ hs hse
    rintro t ht rfl
    exact hpadded t ht hverb he
  rcases (Document.parse_extends_append hv s e).keysStay hkeeps with
    hpre | ⟨kept, name, ⟨path, text, children, complete, henvelopes, hblank, hs, hse⟩, hkeys, hkept⟩
  · exact .inl hpre
  · right
    exact ⟨kept, name, path, text, children, complete, hkeys, hkept, henvelopes, hblank, hs, hse⟩

theorem parse_append_keeps_keys_preamble :
    let s := "<type>a</type><response>Hello"
    Vocabulary.standard.IsPlain ∧
      (∀ t ∈ (Outline.read .standard {} s.toList).stack,
        Vocabulary.standard.isVerbatim t.name = true →
          Vocabulary.standard.isEnvelope t.name = true →
            ¬Vocabulary.standard.EndsPadded t.name t.payload) ∧
      ∃ kept name, (Reply.parse .standard s).keys = kept ++ [name] ∧
        kept <+: (Reply.parse .standard (s ++ "<thought>x")).keys := by
  intro s
  have hv : Vocabulary.standard.IsPlain := by decide +kernel
  have hnames : ∀ name ∈ (Outline.read .standard {} s.toList).stack.map OpenTag.name,
      Vocabulary.standard.isVerbatim name = false := by decide +kernel
  have hpadded : ∀ t ∈ (Outline.read .standard {} s.toList).stack,
      Vocabulary.standard.isVerbatim t.name = true → Vocabulary.standard.isEnvelope t.name = true →
        ¬Vocabulary.standard.EndsPadded t.name t.payload := by
    intro t ht hverb
    rw [hnames t.name (List.mem_map_of_mem ht)] at hverb
    cases hverb
  have hgone : ¬(Reply.parse .standard s).keys <+:
      (Reply.parse .standard (s ++ "<thought>x")).keys := by decide +kernel
  refine ⟨hv, hpadded, ?_⟩
  rcases parse_append_keeps_keys hv s "<thought>x" hpadded with
    hpre | ⟨kept, name, -, -, -, -, hkeys, hkept, -⟩
  · exact absurd hpre hgone
  · exact ⟨kept, name, hkeys, hkept⟩

/-- The key of an envelope that has text goes when a child opens in it. -/
theorem keys_parse_append_drops_envelope :
    Vocabulary.standard.IsPlain ∧
      (Reply.parse .standard "<response>Hello").keys = ["response"] ∧
      (Reply.parse .standard ("<response>Hello" ++ "<thought>x")).keys = ["thought"] ∧
      ¬(Reply.parse .standard "<response>Hello").keys <+:
        (Reply.parse .standard ("<response>Hello" ++ "<thought>x")).keys :=
  ⟨by decide +kernel, by decide +kernel, by decide +kernel, by decide +kernel⟩

end AgentReply
