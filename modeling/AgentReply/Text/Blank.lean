/-!
# Blank characters and trimming

The characters with the Unicode property `White_Space`, and the removal of blank runs at the ends of a
text. Folding of case is left to `Char.toLower`, which touches the letters `A` to `Z` alone.
-/

namespace AgentReply.Text

/-- The characters with the Unicode property `White_Space`. -/
def isBlank (c : Char) : Bool :=
  let n := c.toNat
  (9 ≤ n && n ≤ 13) || n == 0x20 || n == 0x85 || n == 0xA0 || n == 0x1680 ||
    (0x2000 ≤ n && n ≤ 0x200A) || n == 0x2028 || n == 0x2029 || n == 0x202F || n == 0x205F ||
    n == 0x3000

theorem isBlank_of_isWhitespace {c : Char} (h : c.isWhitespace = true) : isBlank c = true := by
  simp only [Char.isWhitespace, Bool.or_eq_true, decide_eq_true_eq] at h
  rcases h with ((rfl | rfl) | rfl) | rfl <;> rfl

def trimStart (s : List Char) : List Char :=
  s.dropWhile isBlank

def trimEnd (s : List Char) : List Char :=
  (s.reverse.dropWhile isBlank).reverse

def trim (s : List Char) : List Char :=
  trimEnd (trimStart s)

@[simp] theorem trimStart_nil : trimStart [] = [] := rfl

@[simp] theorem trimEnd_nil : trimEnd [] = [] := rfl

@[simp] theorem trim_nil : trim [] = [] := rfl

/-- True of a text made of blank characters alone, the empty text among them. -/
def isBlankText (s : String) : Bool :=
  s.toList.all isBlank

def trimmed (s : String) : String :=
  String.ofList (trim s.toList)

/-- A text with its letters `A` to `Z` in lower case. -/
def lowered (s : String) : String :=
  String.ofList (s.toList.map Char.toLower)

/-- The number of octets that a run of characters takes in UTF-8. -/
def octetCount (s : List Char) : Nat :=
  s.foldr (fun c n ↦ c.utf8Size + n) 0

@[simp] theorem octetCount_nil : octetCount [] = 0 := rfl

@[simp] theorem octetCount_cons (c : Char) (s : List Char) :
    octetCount (c :: s) = c.utf8Size + octetCount s := rfl

@[simp] theorem octetCount_append (s t : List Char) :
    octetCount (s ++ t) = octetCount s + octetCount t := by
  induction s with
  | nil => simp
  | cons c s ih => simp [ih, Nat.add_assoc]

theorem octetCount_pos {s : List Char} (h : s ≠ []) : 0 < octetCount s := by
  obtain ⟨c, r, rfl⟩ := List.exists_cons_of_ne_nil h
  exact Nat.add_pos_left c.utf8Size_pos (octetCount r)

end AgentReply.Text
