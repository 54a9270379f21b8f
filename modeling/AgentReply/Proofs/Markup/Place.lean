import AgentReply.Markup.Place
import AgentReply.Proofs.Markup.Places

/-!
# A cursor and the tokens of a text

The offsets that a cursor adds up are the places of the tokens. The run of text that is pending when the
cursor has got somewhere is put before the tokens that follow, and each step of the cursor either makes the
run longer or ends it with a tag.
-/

namespace AgentReply

theorem Text.dropOctets_append (s t : List Char) : dropOctets (octetCount s) (s ++ t) = t := by
  induction s with
  | nil => cases t <;> simp [dropOctets]
  | cons c s ih =>
    have hpos := c.utf8Size_pos
    rw [List.cons_append, dropOctets, octetCount_cons, if_neg (by omega), Nat.add_sub_cancel_left, ih]

/-- The octets of what is read off the head of a text lead to what is left. -/
theorem Text.dropOctets_takeWhile (p : Char → Bool) (s : List Char) :
    dropOctets (octetCount (s.takeWhile p)) s = s.dropWhile p := by
  have hdrop := dropOctets_append (s.takeWhile p) (s.dropWhile p)
  rwa [List.takeWhile_append_dropWhile] at hdrop

theorem Text.octetCount_takeWhile_add (p : Char → Bool) (s : List Char) :
    octetCount (s.takeWhile p) + octetCount (s.dropWhile p) = octetCount s := by
  rw [← octetCount_append, List.takeWhile_append_dropWhile]

namespace Tag

/-- A tag is found where it is read, and it ends where its lexeme does. -/
def found (start : ℕ) (t : Tag) : Found := ⟨t.name, t.closing, start + Text.octetCount t.lexeme⟩

theorem octetCount_lexeme (t : Tag) : Text.octetCount t.lexeme =
    1 + (if t.closing then 1 else 0) + Text.octetCount t.spelling + Text.octetCount t.padding + 1 := by
  have hopen : ('<' : Char).utf8Size = 1 := rfl
  have hslash : ('/' : Char).utf8Size = 1 := rfl
  have hclose : ('>' : Char).utf8Size = 1 := rfl
  rw [lexeme]
  cases t.closing with
  | true =>
    simp [hopen, hslash, hclose]
    omega
  | false => simp [hopen, hclose, Nat.add_assoc]

theorem findName?_eq (v : Vocabulary) (start : ℕ) (closing : Bool) (rest : List Char) :
    findName? v start closing rest = (readName? v closing rest).map fun (t, _) ↦ found start t := by
  have hpadding : Text.octetCount (rest.dropWhile isNameChar) -
      Text.octetCount (Text.trimStart (rest.dropWhile isNameChar)) =
        Text.octetCount ((rest.dropWhile isNameChar).takeWhile Text.isBlank) := by
    rw [Text.trimStart, ← Text.octetCount_takeWhile_add Text.isBlank (rest.dropWhile isNameChar),
      Nat.add_sub_cancel_right]
  have hempty : Text.octetCount (rest.takeWhile isNameChar) = 0 ↔ rest.takeWhile isNameChar = [] :=
    ⟨fun hzero ↦ by_contra fun hne ↦ (Text.octetCount_pos hne).ne' hzero, fun hnil ↦ by rw [hnil]; rfl⟩
  rw [findName?, readName?]
  simp only [Text.dropOctets_takeWhile, hpadding, hempty]
  -- Both look at the same three things: the spelling, the name and what stands behind the padding.
  cases hending : (rest.dropWhile isNameChar).dropWhile Text.isBlank with
  | nil => simp
  | cons c after =>
    by_cases hc : c = '>'
    · subst hc
      by_cases hnil : rest.takeWhile isNameChar = []
      · simp [hnil]
      · cases hknown : v.isKnown (String.ofList ((rest.takeWhile isNameChar).map Char.toLower)) with
        | false => simp [Tag.name, hknown]
        | true =>
          simp only [Tag.name, hknown, ne_eq, hnil, not_false_eq_true, and_self, if_true, if_false]
          simp [found, Tag.name, octetCount_lexeme, Nat.add_assoc]
    · simp [hc]

theorem find?_eq (v : Vocabulary) (start : ℕ) (rest : List Char) :
    find? v start rest = (read? v ('<' :: rest)).map fun (t, _) ↦ found start t := by
  unfold find?
  split
  · exact findName?_eq v start true _
  · next hslash =>
    rw [findName?_eq, read?]
    exact hslash

end Tag

namespace Token

variable {v : Vocabulary} {tokens : List Token}

/-- A run of text before some tokens of which the first is none. -/
theorem foldr_consChar (run : List Char) (h : ∀ t ∈ tokens.head?, t.isText = false) :
    run.foldr consChar tokens = if run = [] then tokens else .text run :: tokens := by
  induction run with
  | nil => rfl
  | cons c run ih =>
    rw [List.foldr_cons, ih, if_neg (List.cons_ne_nil c run)]
    split
    · next hnil =>
      subst hnil
      cases tokens with
      | nil => rfl
      | cons t rest => cases t <;> simp_all [consChar, isText]
    · rfl

theorem scan_append_of_notMem {s : List Char} (h : '<' ∉ s) (rest : List Char) :
    scan v (s ++ rest) = s.foldr consChar (scan v rest) := by
  induction s with
  | nil => rfl
  | cons c s ih =>
    rw [List.mem_cons, not_or] at h
    rw [List.cons_append, scan_of_char (Tag.read?_of_ne (Ne.symm h.1) _), ih h.2, List.foldr_cons]

/-- The place of a token that has been located. -/
def Located.place (l : Located) : Place :=
  match l.token with
  | .tag t => if t.closing then .closing t.name l.start l.stop else .opening t.name l.start l.stop
  | .text _ => .text l.start l.stop

theorem map_place_locate_text (textStart : ℕ) (run : List Char) (h : ∀ t ∈ tokens.head?, t.isText = false) :
    (locate textStart (run.foldr consChar tokens)).map Located.place =
      textBetween textStart (textStart + Text.octetCount run) ++
        (locate (textStart + Text.octetCount run) tokens).map Located.place := by
  rw [foldr_consChar run h, textBetween]
  by_cases hnil : run = []
  · subst hnil
    simp
  · have hpos := Text.octetCount_pos hnil
    rw [if_neg hnil, if_pos (by omega)]
    rfl

/-- A tag between places that a cursor has noted, and the rest behind it. -/
theorem dropOctets_found {start : ℕ} {t : Tag} {s rest : List Char}
    (h : Tag.read? v ('<' :: s) = some (t, rest)) :
    Text.dropOctets ((Tag.found start t).stop - (start + 1)) s = rest := by
  have hsplit := Tag.eq_lexeme_append_of_read? h
  obtain ⟨inner, hinner⟩ : ∃ inner, t.lexeme = '<' :: inner := ⟨_, rfl⟩
  rw [hinner, List.cons_append, List.cons.injEq] at hsplit
  have hcount : (Tag.found start t).stop - (start + 1) = Text.octetCount inner := by
    have hopen : ('<' : Char).utf8Size = 1 := rfl
    rw [Tag.found, hinner, Text.octetCount_cons, hopen]
    dsimp only
    omega
  rw [hcount, hsplit.2, Text.dropOctets_append]

theorem scan_of_dropWhile {c : Char} {rest after : List Char} (h : rest.dropWhile (· != '<') = c :: after) :
    scan v rest = (rest.takeWhile (· != '<')).foldr consChar (scan v ('<' :: after)) := by
  have hc : c = '<' := by
    have hhead := List.head?_dropWhile_not (· != '<') rest
    simpa [h] using hhead
  have hnone : '<' ∉ rest.takeWhile (· != '<') := fun hmem ↦ by simpa using List.mem_takeWhile_imp hmem
  subst hc
  rw [← scan_append_of_notMem hnone, ← h, List.takeWhile_append_dropWhile]

theorem placesFrom_eq (v : Vocabulary) (textStart : ℕ) (run rest : List Char) :
    placesFrom v (textStart + Text.octetCount run) textStart rest =
      (locate textStart (run.foldr consChar (scan v rest))).map Located.place := by
  generalize hcursor : textStart + Text.octetCount run = cursor
  -- The run that is pending grows by the text up to a `<`, and by the `<` itself if it begins no tag.
  fun_induction placesFrom v cursor textStart rest generalizing run with
  | case1 cursor textStart rest hend =>
    have hnone : '<' ∉ rest := by
      rw [List.dropWhile_eq_nil_iff] at hend
      exact fun hmem ↦ by simpa using hend _ hmem
    have hscan := scan_append_of_notMem (v := v) hnone []
    rw [List.append_nil, scan_nil] at hscan
    rw [hscan, ← List.foldr_append, map_place_locate_text _ _ (by simp), ← hcursor, Text.octetCount_append,
      Nat.add_assoc]
    simp
  | case2 cursor textStart rest c after hend start t hfind ih =>
    rw [Tag.find?_eq, Option.map_eq_some_iff] at hfind
    obtain ⟨⟨u, tail⟩, hread, rfl⟩ := hfind
    have htail := ih [] rfl
    rw [dropOctets_found hread] at htail
    have hstart : textStart + Text.octetCount (run ++ rest.takeWhile (· != '<')) = start := by
      rw [Text.octetCount_append, ← Nat.add_assoc, hcursor]
    rw [dropOctets_found hread, scan_of_dropWhile hend, scan_of_tag hread, ← List.foldr_append,
      map_place_locate_text _ _ (by simp [isText]), hstart, htail]
    rfl
  | case3 cursor textStart rest c after hend start hfind ih =>
    rw [Tag.find?_eq, Option.map_eq_none_iff] at hfind
    have hopen : ('<' : Char).utf8Size = 1 := rfl
    have hnext := ih (run ++ rest.takeWhile (· != '<') ++ ['<']) (by
      rw [Text.octetCount_append, Text.octetCount_append, ← Nat.add_assoc, ← Nat.add_assoc, hcursor]
      simp [hopen, start])
    rw [hnext, scan_of_dropWhile hend, scan_of_char hfind, List.foldr_append, List.foldr_append]
    rfl

/-- The places that a cursor finds are those of the tokens of a text. -/
theorem places_eq (v : Vocabulary) (text : String) :
    places v text = (locate 0 (scan v text.toList)).map Located.place :=
  placesFrom_eq v 0 [] text.toList

end Token
end AgentReply
