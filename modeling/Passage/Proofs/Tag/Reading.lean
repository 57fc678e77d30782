import Passage.Tag.Scan

/-! Reading what has been printed. A piece reads what stands for it and leaves the rest, where the
rest does not go on in the piece's own class; so a printed tag is read piece by piece, and the
extents add up. -/

namespace Passage.Tag

variable {n : Nat} {ps : List Piece} {x cs : List Char}

theorem takeWhile_append_of_stop {q : Char → Bool} (hx : ∀ c ∈ x, q c = true)
    (hcs : ∀ c ∈ cs.head?, q c = false) : (x ++ cs).takeWhile q = x := by
  rw [List.takeWhile_append_of_pos hx]
  cases cs with
  | nil => simp
  | cons c cs => simp [hcs c rfl]

theorem dropWhile_append_of_stop {q : Char → Bool} (hx : ∀ c ∈ x, q c = true)
    (hcs : ∀ c ∈ cs.head?, q c = false) : (x ++ cs).dropWhile q = cs := by
  rw [List.dropWhile_append_of_pos hx]
  cases cs with
  | nil => rfl
  | cons c cs => exact List.dropWhile_cons_of_neg (Bool.eq_false_iff.mp (hcs c rfl))

theorem drop_length_takeWhile (q : Char → Bool) (cs : List Char) :
    cs.drop (cs.takeWhile q).length = cs.dropWhile q := by
  induction cs with
  | nil => rfl
  | cons c cs ih => by_cases hc : q c = true <;> simp [hc, ih]

theorem readPieces?_cons {p : Piece} {k : Nat} {captured : List Span}
    (h : p.take? cs = some (k, captured)) :
    readPieces? n (p :: ps) cs = (readPieces? (n + k) ps (cs.drop k)).map fun e =>
      ⟨e.length, captured.map (shift n) ++ e.groups⟩ := by
  simp only [readPieces?, h, Option.map_eq_bind]
  rfl

/-- A piece that captures nothing. -/
theorem readPieces?_skip {p : Piece} {k : Nat} (h : p.take? cs = some (k, [])) :
    readPieces? n (p :: ps) cs = readPieces? (n + k) ps (cs.drop k) := by
  rw [readPieces?_cons h]
  exact Option.map_id'

theorem readPieces?_literal (n : Nat) (ps : List Piece) (l cs : List Char) :
    readPieces? n (.literal l :: ps) (l ++ cs) = readPieces? (n + l.length) ps cs := by
  have h : Text.dropLiteral? l (l ++ cs) = some cs := Text.dropLiteral?_eq_some_iff.mpr rfl
  rw [readPieces?_skip (k := l.length) (by simp [Piece.take?, h]), List.drop_left]

theorem readPieces?_blanks (hx : ∀ c ∈ x, Text.isBlank c = true)
    (hcs : ∀ c ∈ cs.head?, Text.isBlank c = false) :
    readPieces? n (.blanks :: ps) (x ++ cs) = readPieces? (n + x.length) ps cs := by
  have h := takeWhile_append_of_stop hx hcs
  rw [readPieces?_skip (k := x.length) (by simp [Piece.take?, h]), List.drop_left]

/-- No blank where any number may stand. -/
theorem readPieces?_noBlanks (hcs : ∀ c ∈ cs.head?, Text.isBlank c = false) :
    readPieces? n (.blanks :: ps) cs = readPieces? n ps cs :=
  readPieces?_blanks (x := []) (fun _ hc => absurd hc List.not_mem_nil) hcs

theorem readPieces?_someBlanks (hne : x ≠ []) (hx : ∀ c ∈ x, Text.isBlank c = true)
    (hcs : ∀ c ∈ cs.head?, Text.isBlank c = false) :
    readPieces? n (.someBlanks :: ps) (x ++ cs) = readPieces? (n + x.length) ps cs := by
  have h := takeWhile_append_of_stop hx hcs
  rw [readPieces?_skip (k := x.length) (by simp [Piece.take?, h, hne]), List.drop_left]

theorem isBlank_of_mem_space : ∀ c ∈ [' '], Text.isBlank c = true := by
  intro c hc
  rw [List.mem_singleton.mp hc]
  rfl

/-- One space where a blank must stand. -/
theorem readPieces?_space (hcs : ∀ c ∈ cs.head?, Text.isBlank c = false) :
    readPieces? n (.someBlanks :: ps) ([' '] ++ cs) = readPieces? (n + 1) ps cs :=
  readPieces?_someBlanks (List.cons_ne_nil _ _) isBlank_of_mem_space hcs

theorem readPieces?_digits (hne : x ≠ []) (hx : ∀ c ∈ x, Text.isDecimalDigit c = true)
    (hcs : ∀ c ∈ cs.head?, Text.isDecimalDigit c = false) :
    readPieces? n (.digits :: ps) (x ++ cs) =
      (readPieces? (n + x.length) ps cs).map fun e =>
        ⟨e.length, ⟨n, n + x.length⟩ :: e.groups⟩ := by
  have hp : Piece.digits.take? (x ++ cs) = some (x.length, [⟨0, x.length⟩]) := by
    simp [Piece.take?, takeWhile_append_of_stop hx hcs, hne]
  rw [readPieces?_cons hp, List.drop_left]
  simp [shift, Nat.add_comm x.length]

theorem readPieces?_upTo {stop : Char} (hx : stop ∉ x) :
    readPieces? n (.upTo stop :: ps) (x ++ stop :: cs) =
      (readPieces? (n + x.length) ps (stop :: cs)).map fun e =>
        ⟨e.length, ⟨n, n + x.length⟩ :: e.groups⟩ := by
  have h : (x ++ stop :: cs).takeWhile (· != stop) = x := by
    refine takeWhile_append_of_stop (fun c hc => ?_) (by simp)
    rw [bne_iff_ne]
    rintro rfl
    exact hx hc
  have hp : (Piece.upTo stop).take? (x ++ stop :: cs) = some (x.length, [⟨0, x.length⟩]) := by
    simp [Piece.take?, h]
  rw [readPieces?_cons hp, List.drop_left]
  simp [shift, Nat.add_comm x.length]

/-! ## Texts in which nothing is read -/

/-- Nothing is read at any place of a text, whatever follows the text. -/
def Nowhere {α : Type} (reads : List Char → Option α) : List Char → Prop
  | [] => True
  | c :: cs => (∀ rest, reads (c :: (cs ++ rest)) = none) ∧ Nowhere reads cs

namespace Nowhere

variable {α β : Type} {reads : List Char → Option α} {y : List Char}

theorem append (hx : Nowhere reads x) (hy : Nowhere reads y) : Nowhere reads (x ++ y) := by
  induction x with
  | nil => exact hy
  | cons c x ih =>
    obtain ⟨hc, hx⟩ := hx
    refine ⟨fun rest => ?_, ih hx⟩
    show reads (c :: ((x ++ y) ++ rest)) = none
    rw [List.append_assoc]
    exact hc (y ++ rest)

theorem of_append (h : Nowhere reads (x ++ y)) : Nowhere reads y := by
  induction x with
  | nil => exact h
  | cons c x ih => exact ih h.2

theorem flatMap {l : List β} {f : β → List Char} (h : ∀ b ∈ l, Nowhere reads (f b)) :
    Nowhere reads (l.flatMap f) := by
  induction l with
  | nil => trivial
  | cons b l ih =>
    obtain ⟨hb, hl⟩ := List.forall_mem_cons.mp h
    exact append hb (ih hl)

/-- What reads less is read nowhere as well. -/
theorem imp {other : List Char → Option β} (h : ∀ cs, reads cs = none → other cs = none)
    (hx : Nowhere reads x) : Nowhere other x := by
  induction x with
  | nil => trivial
  | cons c x ih => exact ⟨fun rest => h _ (hx.1 rest), ih hx.2⟩

theorem of_not_mem {c : Char} {l : List Char} (h : c ∉ x) :
    Nowhere (Text.dropLiteral? (c :: l)) x := by
  induction x with
  | nil => trivial
  | cons d x ih =>
    rw [List.mem_cons, not_or] at h
    exact ⟨fun rest => if_neg h.1, ih h.2⟩

end Nowhere

theorem beforeLiteral?_append {l : List Char} (hx : Nowhere (Text.dropLiteral? l) x) (hne : l ≠ [])
    (rest : List Char) : Text.beforeLiteral? l (x ++ (l ++ rest)) = some x := by
  induction x with
  | nil =>
    obtain ⟨c, l, rfl⟩ := List.exists_cons_of_ne_nil hne
    have h : Text.dropLiteral? (c :: l) (c :: (l ++ rest)) = some rest :=
      Text.dropLiteral?_eq_some_iff.mpr rfl
    simp [Text.beforeLiteral?, h]
  | cons c x ih =>
    obtain ⟨hc, hx⟩ := hx
    simp [Text.beforeLiteral?, hc, ih hx]

theorem readPieces?_body {closing : List Char} (hx : Nowhere (Text.dropLiteral? closing) x)
    (hne : closing ≠ []) (n : Nat) (rest : List Char) :
    readPieces? n [.content closing] (x ++ (closing ++ rest)) =
      some ⟨n + (x.length + closing.length), [⟨n, n + x.length⟩]⟩ := by
  simp [readPieces?, Piece.take?, beforeLiteral?_append hx hne, shift, Nat.add_comm x.length]

end Passage.Tag
