import Passage.Proofs.Styled.Spacing
import Passage.Proofs.Tag.Parts
import Passage.Proofs.Text.Words

/-! A text with one space for each stretch of blanks. Where a text does not go on with a blank it
can be cut, and each part is shrunk by itself (`shrink_append`); the other way round, each part of
a shrunk text is what has become of a part of the text (`exists_of_shrink_eq_append`). So what is
spelled by words without blanks can be read off either text. The words between white space are the
same in both, whatever stands around them (`sameWords_shrink`). -/

namespace Passage.Text

open Tag

/-- The text with a space for each stretch of blanks. -/
def shrink : List Char → List Char
  | [] => []
  | c :: cs =>
    if isBlank c then
      if cs.head?.any isBlank then shrink cs else ' ' :: shrink cs
    else c :: shrink cs

variable {c : Char} {x y cs : List Char}

@[simp] theorem shrink_nil : shrink [] = [] := rfl

theorem shrink_cons_of_not_blank (hc : isBlank c = false) (cs : List Char) :
    shrink (c :: cs) = c :: shrink cs := by
  rw [shrink, hc, if_neg Bool.false_ne_true]

/-- The last blank of a stretch. -/
theorem shrink_cons_of_blank (hc : isBlank c = true) (hcs : Stops isBlank cs) :
    shrink (c :: cs) = ' ' :: shrink cs := by
  have hnext : ¬ cs.head?.any isBlank = true := by
    rw [Option.any_eq_true]
    rintro ⟨d, hd, hblank⟩
    exact Bool.eq_false_iff.mp (hcs d hd) hblank
  rw [shrink, if_pos hc, if_neg hnext]

/-- A blank that another one follows. -/
theorem shrink_cons_cons {d : Char} (hc : isBlank c = true) (hd : isBlank d = true)
    (cs : List Char) : shrink (c :: d :: cs) = shrink (d :: cs) := by
  rw [shrink, if_pos hc, List.head?_cons, Option.any_some, if_pos hd]

/-- A text goes on with a blank or it does not. -/
theorem stops_or_exists_blank (cs : List Char) :
    Stops isBlank cs ∨ ∃ d ds, cs = d :: ds ∧ isBlank d = true := by
  cases cs with
  | nil => exact .inl fun _ hd => absurd hd (by simp)
  | cons d ds =>
    cases hd : isBlank d with
    | true => exact .inr ⟨d, ds, rfl, hd⟩
    | false => exact .inl (stops_cons hd ds)

/-- Induction along a text: no character, one that is no blank, the last blank of a stretch, and a
blank before another. -/
@[elab_as_elim]
theorem blank_induction {P : List Char → Prop} (cs : List Char) (nil : P [])
    (char : ∀ c cs, isBlank c = false → P cs → P (c :: cs))
    (last : ∀ c cs, isBlank c = true → Stops isBlank cs → P cs → P (c :: cs))
    (more : ∀ c d cs, isBlank c = true → isBlank d = true → P (d :: cs) → P (c :: d :: cs)) :
    P cs := by
  induction cs with
  | nil => exact nil
  | cons c cs ih =>
    cases hc : isBlank c with
    | false => exact char c cs hc ih
    | true =>
      rcases stops_or_exists_blank cs with hcs | ⟨d, ds, rfl, hd⟩
      · exact last c cs hc hcs ih
      · exact more c d ds hc hd ih

/-! ## Cutting -/

/-- A text is cut where it goes on without a blank. -/
theorem shrink_append (x : List Char) (hy : Stops isBlank y) :
    shrink (x ++ y) = shrink x ++ shrink y := by
  induction x using blank_induction with
  | nil => rfl
  | char c x hc ih =>
    rw [List.cons_append, shrink_cons_of_not_blank hc, shrink_cons_of_not_blank hc, ih]
    rfl
  | last c x hc hx ih =>
    rw [List.cons_append, shrink_cons_of_blank hc (hx.append hy), shrink_cons_of_blank hc hx, ih]
    rfl
  | more c d x hc hd ih =>
    rw [List.cons_append, List.cons_append, shrink_cons_cons hc hd, shrink_cons_cons hc hd, ← ih]
    rfl

/-- Each part of a shrunk text is what has become of a part of the text. -/
theorem exists_of_shrink_eq_append {u v : List Char} (h : shrink cs = u ++ v) :
    ∃ x y, cs = x ++ y ∧ shrink x = u ∧ shrink y = v := by
  induction cs using blank_induction generalizing u with
  | nil =>
    obtain ⟨rfl, rfl⟩ := List.append_eq_nil_iff.mp h.symm
    exact ⟨[], [], rfl, rfl, rfl⟩
  | char c cs hc ih =>
    cases u with
    | nil => exact ⟨[], c :: cs, rfl, rfl, h⟩
    | cons d u =>
      rw [shrink_cons_of_not_blank hc, List.cons_append, List.cons.injEq] at h
      obtain ⟨rfl, h⟩ := h
      obtain ⟨x, y, rfl, rfl, hy⟩ := ih h
      exact ⟨c :: x, y, rfl, shrink_cons_of_not_blank hc x, hy⟩
  | last c cs hc hcs ih =>
    cases u with
    | nil => exact ⟨[], c :: cs, rfl, rfl, h⟩
    | cons d u =>
      rw [shrink_cons_of_blank hc hcs, List.cons_append, List.cons.injEq] at h
      obtain ⟨rfl, h⟩ := h
      obtain ⟨x, y, rfl, rfl, hy⟩ := ih h
      exact ⟨c :: x, y, rfl, shrink_cons_of_blank hc hcs.of_append, hy⟩
  | more c d cs hc hd ih =>
    cases u with
    | nil => exact ⟨[], c :: d :: cs, rfl, rfl, h⟩
    | cons e u =>
      rw [shrink_cons_cons hc hd] at h
      obtain ⟨x, y, hcs, hx, hy⟩ := ih h
      cases x with
      | nil => cases hx
      | cons d' x =>
        obtain ⟨rfl, rfl⟩ := List.cons.inj hcs
        exact ⟨c :: d :: x, y, rfl, (shrink_cons_cons hc hd x).trans hx, hy⟩

/-! ## Words and blanks -/

/-- A text without blanks is left as it is. -/
theorem shrink_of_noBlank (h : ∀ c ∈ x, isBlank c = false) : shrink x = x := by
  induction x with
  | nil => rfl
  | cons c x ih =>
    obtain ⟨hc, hx⟩ := List.forall_mem_cons.mp h
    rw [shrink_cons_of_not_blank hc, ih hx]

theorem shrink_word_append (h : ∀ c ∈ x, isBlank c = false) (cs : List Char) :
    shrink (x ++ cs) = x ++ shrink cs := by
  induction x with
  | nil => rfl
  | cons c x ih =>
    obtain ⟨hc, hx⟩ := List.forall_mem_cons.mp h
    rw [List.cons_append, shrink_cons_of_not_blank hc, ih hx]
    rfl

/-- A word parts a text. -/
theorem shrink_append_word_append {w : List Char} (hw : ∀ c ∈ w, isBlank c = false) (hne : w ≠ [])
    (x y : List Char) : shrink (x ++ (w ++ y)) = shrink x ++ (w ++ shrink y) := by
  have hstops : Stops isBlank (w ++ y) := by
    intro c hc
    rw [List.head?_append_of_ne_nil _ hne] at hc
    exact hw c (List.mem_of_mem_head? hc)
  rw [shrink_append x hstops, shrink_word_append hw]

/-- A shrunk text has the characters that are no blanks, and a space if there are blanks. -/
theorem mem_shrink_iff :
    c ∈ shrink cs ↔ isBlank c = false ∧ c ∈ cs ∨ c = ' ' ∧ ∃ d ∈ cs, isBlank d = true := by
  induction cs using blank_induction with
  | nil => simp
  | char d cs hd ih =>
    rw [shrink_cons_of_not_blank hd, List.mem_cons, ih]
    grind
  | last d cs hd hcs ih =>
    rw [shrink_cons_of_blank hd hcs, List.mem_cons, ih]
    grind
  | more d e cs hd he ih =>
    rw [shrink_cons_cons hd he, ih]
    grind

theorem mem_shrink_of_not_blank (hc : isBlank c = false) : c ∈ shrink cs ↔ c ∈ cs := by
  rw [mem_shrink_iff]
  constructor
  · rintro (⟨-, h⟩ | ⟨rfl, -⟩)
    · exact h
    · cases hc
  · exact fun h => .inl ⟨hc, h⟩

theorem blanks_shrink_iff : Blanks (shrink cs) ↔ Blanks cs := by
  constructor
  · intro h c hc
    by_contra hb
    have hb := Bool.eq_false_iff.mpr hb
    rw [h c ((mem_shrink_of_not_blank hb).mpr hc)] at hb
    cases hb
  · intro h c hc
    rcases mem_shrink_iff.mp hc with ⟨hb, hc⟩ | ⟨rfl, -⟩
    · rw [h c hc] at hb
      cases hb
    · rfl

theorem shrink_eq_nil_iff : shrink cs = [] ↔ cs = [] := by
  cases cs with
  | nil => simp
  | cons c cs =>
    refine iff_of_false (fun h => ?_) (List.cons_ne_nil c cs)
    cases hc : isBlank c with
    | false =>
      have hmem := (mem_shrink_of_not_blank hc).mpr (List.mem_cons_self (a := c) (l := cs))
      rw [h] at hmem
      cases hmem
    | true =>
      have hmem := mem_shrink_iff.mpr (.inr ⟨rfl, c, List.mem_cons_self (a := c) (l := cs), hc⟩)
      rw [h] at hmem
      cases hmem

/-- A word of the shrunk text stands in the text. -/
theorem eq_of_shrink_eq (hx : ∀ c ∈ x, isBlank c = false) (h : shrink cs = x) : cs = x := by
  rw [← h, shrink_of_noBlank]
  intro c hc
  by_contra hb
  have hspace : ' ' ∈ x :=
    h ▸ mem_shrink_iff.mpr (.inr ⟨rfl, c, hc, Bool.not_eq_false _ ▸ hb⟩)
  exact absurd (hx ' ' hspace) (by decide)

theorem stops_shrink_iff : Stops isBlank (shrink cs) ↔ Stops isBlank cs := by
  induction cs using blank_induction with
  | nil => exact Iff.rfl
  | char c cs hc ih =>
    rw [shrink_cons_of_not_blank hc]
    exact iff_of_true (stops_cons hc _) (stops_cons hc cs)
  | last c cs hc hcs ih =>
    rw [shrink_cons_of_blank hc hcs]
    refine iff_of_false (fun h => ?_) fun h => ?_
    · cases h ' ' rfl
    · rw [h c rfl] at hc
      cases hc
  | more c d cs hc hd ih =>
    rw [shrink_cons_cons hc hd, ih]
    refine iff_of_false (fun h => ?_) fun h => ?_
    · rw [h d rfl] at hd
      cases hd
    · rw [h c rfl] at hc
      cases hc

/-- A stretch of blanks becomes one space. -/
theorem shrink_of_blanks (hne : x ≠ []) (hx : Blanks x) : shrink x = [' '] := by
  induction x using blank_induction with
  | nil => exact absurd rfl hne
  | char c x hc =>
    rw [hx c List.mem_cons_self] at hc
    cases hc
  | last c x hc hstops =>
    have hnil : x = [] := by
      cases x with
      | nil => rfl
      | cons d x =>
        have hd := hx d (List.mem_cons_of_mem c List.mem_cons_self)
        rw [hstops d rfl] at hd
        cases hd
    rw [shrink_cons_of_blank hc hstops, hnil]
    rfl
  | more c d x hc hd ih =>
    rw [shrink_cons_cons hc hd]
    exact ih (List.cons_ne_nil d x) (List.forall_mem_cons.mp hx).2

/-! ## White space -/

theorem white_shrink (h : ∀ c ∈ cs, isWhite c = true) : ∀ c ∈ shrink cs, isWhite c = true := by
  intro c hc
  rcases mem_shrink_iff.mp hc with ⟨-, hc⟩ | ⟨rfl, -⟩
  · exact h c hc
  · rfl

theorem any_shrink : ((shrink cs).any (!isWhite ·)) = cs.any (!isWhite ·) := by
  rw [Bool.eq_iff_iff, List.any_eq_true, List.any_eq_true]
  constructor
  · rintro ⟨c, hc, hw⟩
    rcases mem_shrink_iff.mp hc with ⟨-, hc⟩ | ⟨rfl, -⟩
    · exact ⟨c, hc, hw⟩
    · cases hw
  · rintro ⟨c, hc, hw⟩
    have hblank := isBlank_of_isWhite_eq_false (Bool.not_eq_true' _ ▸ hw)
    exact ⟨c, (mem_shrink_of_not_blank hblank).mpr hc, hw⟩

/-- The texts have the same words, whatever stands around them. -/
def SameWords (x y : List Char) : Prop :=
  ∀ before after, words (before ++ (x ++ after)) = words (before ++ (y ++ after))

theorem SameWords.refl (x : List Char) : SameWords x x :=
  fun _ _ => rfl

theorem SameWords.append {x' y' : List Char} (h : SameWords x y) (h' : SameWords x' y') :
    SameWords (x ++ x') (y ++ y') := by
  intro before after
  calc words (before ++ (x ++ x' ++ after))
      = words (before ++ (x ++ (x' ++ after))) := by rw [List.append_assoc]
    _ = words (before ++ (y ++ (x' ++ after))) := h before (x' ++ after)
    _ = words (before ++ y ++ (x' ++ after)) := by rw [List.append_assoc]
    _ = words (before ++ y ++ (y' ++ after)) := h' (before ++ y) after
    _ = words (before ++ (y ++ y' ++ after)) := by rw [List.append_assoc, List.append_assoc]

theorem SameWords.squeeze_eq (h : SameWords x y) : squeeze x = squeeze y := by
  have hwords := h [] []
  rw [List.nil_append, List.nil_append, List.append_nil, List.append_nil] at hwords
  rw [squeeze, squeeze, hwords]

/-- White space parts two words, however much of it there is. -/
theorem sameWords_shrink (cs : List Char) : SameWords (shrink cs) cs := by
  have hpart {c : Char} (hc : isBlank c = true) (a b : List Char) :
      words (a ++ c :: b) = words a ++ words b :=
    wordsBy_append_cons (isWhite_of_isBlank hc) a b
  induction cs using blank_induction with
  | nil => exact fun _ _ => rfl
  | char c cs hc ih =>
    intro before after
    have h := ih (before ++ [c]) after
    rw [List.append_assoc, List.append_assoc] at h
    rw [shrink_cons_of_not_blank hc]
    exact h
  | last c cs hc hcs ih =>
    intro before after
    rw [shrink_cons_of_blank hc hcs, List.cons_append, List.cons_append, hpart rfl, hpart hc]
    exact congrArg _ (ih [] after)
  | more c d cs hc hd ih =>
    intro before after
    have h := ih before after
    rw [List.cons_append, hpart hd] at h
    rw [shrink_cons_cons hc hd, h, List.cons_append, hpart hc, List.cons_append]
    exact congrArg _ (wordsBy_cons (isWhite_of_isBlank hd) _).symm

/-! ## Squeezing -/

/-- What squeezing makes of unstyled characters. -/
theorem squeeze_unstyled (cs : List Char) :
    Spacing.squeeze Spacing.isBlank (cs.map fun c => (c, ∅)) =
      (shrink cs).map fun c => ((c, ∅) : StyledChar) := by
  generalize h : cs.map (fun c => ((c, ∅) : StyledChar)) = ds
  induction ds using Spacing.stretches_induction generalizing cs with
  | nil =>
    rw [List.map_eq_nil_iff.mp h]
    rfl
  | append blank s ds hleads ih =>
    obtain ⟨x, y, rfl, rfl, hy⟩ := List.map_eq_append_iff.mp h
    have hne : x ≠ [] := fun hnil => hleads.ne_nil (List.map_eq_nil_iff.mpr hnil)
    have huniform : ∀ c ∈ x, isBlank c = blank := List.forall_mem_map.mp hleads.uniform
    rw [Spacing.squeeze_append hleads, ih y hy, List.any_map]
    cases blank with
    | true =>
      have hstops : Stops isBlank y := by
        intro c hc
        have hhead := hleads.stops (c, ∅)
        rw [← hy, List.head?_map, Option.mem_def.mp hc] at hhead
        exact hhead rfl
      have hany : (x.any fun c => isBlank c) = true := by
        obtain ⟨c, x, rfl⟩ := List.exists_cons_of_ne_nil hne
        rw [List.any_cons, huniform c List.mem_cons_self, Bool.true_or]
      rw [shrink_append x hstops, shrink_of_blanks hne huniform, List.map_append]
      exact congrArg (· ++ _) (if_pos hany)
    | false =>
      have hany : ¬ (x.any fun c => isBlank c) = true := by
        rw [List.any_eq_true]
        rintro ⟨c, hc, hb⟩
        rw [huniform c hc] at hb
        cases hb
      rw [shrink_word_append huniform, List.map_append]
      exact congrArg (· ++ _) (if_neg hany)

end Passage.Text
