/-! The two white-space classes of the library. Markup is laid out with the six
ASCII blanks; numbers and notes are trimmed by Unicode's White_Space property,
which holds of every blank. Each text operation below keeps the characters that
are not white space, in their order. -/

namespace Passage.Text

/-- The ASCII blanks: space, tab, line feed, vertical tab, form feed, carriage return. -/
def isBlank (c : Char) : Bool :=
  c == ' ' || c == '\t' || c == '\n' || c == '\x0b' || c == '\x0c' || c == '\r'

/-- The characters with the White_Space property. -/
def isWhite (c : Char) : Bool :=
  isBlank c || c == '\x85' || c == '\xa0' || c == '\u1680' ||
  ('\u2000' ≤ c && c ≤ '\u200a') || c == '\u2028' || c == '\u2029' || c == '\u202f' ||
  c == '\u205f' || c == '\u3000'

theorem noBlank_of_all {cs : List Char} (h : cs.all (!isBlank ·) = true) :
    ∀ c ∈ cs, isBlank c = false := by
  simpa using h

theorem isWhite_of_isBlank {c : Char} (h : isBlank c = true) : isWhite c = true := by
  simp [isWhite, h]

theorem isBlank_of_isWhite_eq_false {c : Char} (h : isWhite c = false) : isBlank c = false := by
  rw [Bool.eq_false_iff] at h ⊢
  exact mt isWhite_of_isBlank h

theorem toNat_of_isWhite {c : Char} (h : isWhite c = true) : c.toNat ≤ 32 ∨ 133 ≤ c.toNat := by
  simp only [isWhite, isBlank, Bool.or_eq_true, beq_iff_eq, Bool.and_eq_true,
    decide_eq_true_eq] at h
  rcases h with (((((((((((((rfl | rfl) | rfl) | rfl) | rfl) | rfl) | rfl) | rfl) | rfl) | h) |
    rfl) | rfl) | rfl) | rfl) | rfl
  case inl.inl.inl.inl.inl.inr =>
    have : (0x2000 : Nat) ≤ c.toNat := h.1
    omega
  all_goals decide

/-- The text without the characters of a class at either end. -/
def trimBoth (p : Char → Bool) (cs : List Char) : List Char :=
  ((cs.dropWhile p).reverse.dropWhile p).reverse

def trim (cs : List Char) : List Char :=
  trimBoth isWhite cs

/-- The maximal stretches without white space, in order. -/
def words (cs : List Char) : List (List Char) :=
  (cs.splitOnP isWhite).filter (!·.isEmpty)

theorem ne_nil_of_mem_words {w cs : List Char} (h : w ∈ words cs) : w ≠ [] := by
  have := (List.mem_filter.1 h).2
  simpa using this

/-- The words joined by single spaces. -/
def squeeze (cs : List Char) : List Char :=
  [' '].intercalate (words cs)

end Passage.Text
