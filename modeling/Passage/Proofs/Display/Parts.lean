import Passage.Proofs.Display.Lines
import Passage.Proofs.Display.Looks

/-! What stands on each line of the display, run by run. A run has one part on a line, the
characters of it that the line feeds before them put there, and no part where there are none of
them. The spans of a line are the parts on it, in the looks of their runs; and the line stands where
the first of them that asks for an alignment wants it (`displayLines_styled`). -/

namespace Passage

/-- The characters that stand on a line, in a text that starts on line `n`. -/
def Text.onLine (line : Nat) : Nat → List Char → List Char
  | _, [] => []
  | n, c :: cs =>
    if c = '\n' then onLine line (n + 1) cs
    else if n = line then c :: onLine line n cs
    else onLine line n cs

/-- What of a run stands on one line. -/
structure LinePart where
  place : Span
  styles : StyleSet
  text : List Char
deriving DecidableEq

namespace LinePart

/-- The parts on a line, of runs of which the first starts on line `n`. -/
def onLine (line : Nat) : Nat → List (Span × Run) → List LinePart
  | _, [] => []
  | n, p :: places =>
    let text := Text.onLine line n p.2.text
    let later := onLine line (n + p.2.text.count '\n') places
    if text.isEmpty then later else ⟨p.1, p.2.styles, text⟩ :: later

def Unaligned (p : LinePart) : Prop :=
  .alignCenter ∉ p.styles ∧ .alignOpposite ∉ p.styles

/-- How a line of these parts is aligned: as the first of them says that says something, where the
middle goes before the trailing edge. -/
inductive Aligned : List LinePart → Option Alignment → Prop
  | nil : Aligned [] none
  | center {p : LinePart} {ps : List LinePart} : .alignCenter ∈ p.styles →
      Aligned (p :: ps) (some .center)
  | right {p : LinePart} {ps : List LinePart} : .alignCenter ∉ p.styles →
      .alignOpposite ∈ p.styles → Aligned (p :: ps) (some .right)
  | skip {p : LinePart} {ps : List LinePart} {a : Option Alignment} : p.Unaligned → Aligned ps a →
      Aligned (p :: ps) a

/-- A span shows a part: in the look of its styles, and in reverse video if just the bytes of its
run are selected. -/
structure Shown (selected : Option Span) (p : LinePart) (s : DisplaySpan) : Prop where
  text_eq : s.text = p.text
  look : Look.Tells p.styles.attributes (decide (selected = some p.place)) s.look

end LinePart

def StyledText.partsOn (t : StyledText) (line : Nat) : List LinePart :=
  LinePart.onLine line 0 t.placed

/-! ## Runs and their parts -/

/-- A run has at most one part on a line, and parts stand in the order of their runs. -/
theorem LinePart.map_onLine_sublist (line n : Nat) (places : List (Span × Run)) :
    ((LinePart.onLine line n places).map fun p => (p.place, p.styles)).Sublist
      (places.map fun p => (p.1, p.2.styles)) := by
  induction places generalizing n with
  | nil => exact .slnil
  | cons p places ih =>
    rw [LinePart.onLine, List.map_cons]
    split
    · exact (ih _).cons _
    · exact (ih _).cons_cons _

/-- Runs with text in them are in different places. -/
theorem Run.nodup_placedFrom {rs : List Run} (h : Canonical rs) (offset : Nat) :
    ((placedFrom offset rs).map Prod.fst).Nodup := by
  induction rs generalizing offset with
  | nil => exact List.nodup_nil
  | cons r rs ih =>
    refine List.nodup_cons.mpr ⟨?_, ih h.tail _⟩
    intro hmem
    obtain ⟨p, hp, hplace⟩ := List.mem_map.mp hmem
    have hlater := (place_of_mem_placedFrom hp).1
    have hlen : Text.byteLength r.text ≠ 0 := mt Text.byteLength_eq_zero_iff.mp h.text_ne_nil
    rw [hplace] at hlater
    simp only at hlater
    omega

/-! ## The characters on a line -/

theorem Text.onLine_of_lt {line n : Nat} (h : line < n) (cs : List Char) :
    Text.onLine line n cs = [] := by
  induction cs generalizing n with
  | nil => rfl
  | cons c cs ih =>
    rw [Text.onLine, ih h, ih (Nat.lt_succ_of_lt h), if_neg (Nat.ne_of_gt h)]
    split <;> rfl

theorem Text.onLine_eq {line n : Nat} (h : n ≤ line) (cs : List Char) :
    Text.onLine line n cs = ((cs.splitOn '\n')[line - n]?).getD [] := by
  induction cs generalizing n with
  | nil =>
    rw [Text.onLine, List.splitOn_nil]
    cases line - n <;> rfl
  | cons c cs ih =>
    obtain ⟨first, rest, hsplit⟩ := List.exists_cons_of_ne_nil (List.splitOn_ne_nil '\n' cs)
    rw [Text.onLine, List.splitOn_cons_eq_if_modifyHead, hsplit]
    by_cases hc : c = '\n'
    · subst hc
      simp only [if_true, beq_self_eq_true]
      rcases Nat.lt_or_eq_of_le h with hlt | rfl
      · have hnext : line - n = (line - (n + 1)) + 1 := by omega
        rw [ih hlt, hsplit, hnext, List.getElem?_cons_succ]
      · rw [Nat.sub_self, Text.onLine_of_lt (Nat.lt_succ_self n)]
        rfl
    · have hbeq : (c == '\n') = false := by simpa using hc
      simp only [if_neg hc, hbeq, Bool.false_eq_true, if_false, List.modifyHead_cons]
      rw [ih h, hsplit]
      split
      · next heq =>
        subst heq
        simp
      · next hne =>
        have hnext : line - n = (line - (n + 1)) + 1 := by omega
        rw [hnext, List.getElem?_cons_succ, List.getElem?_cons_succ]

/-! ## The pieces on a line -/

namespace Piece

/-- The pieces on a line, the first line being line 0. -/
def lineAt (line : Nat) (ps : List (Option Piece)) : List Piece :=
  ((linesOf ps)[line]?).getD []

/-- Of broken pieces each line gets one, the last of them shares its line with what follows. -/
theorem lineAt_broken_append {ps : List Piece} (hps : ps ≠ []) (qs : List (Option Piece))
    (line : Nat) :
    lineAt line (broken ps ++ qs) = ps[line]?.toList ++
      if ps.length ≤ line + 1 then lineAt (line + 1 - ps.length) qs else [] := by
  induction ps generalizing line with
  | nil => exact absurd rfl hps
  | cons p ps ih =>
    cases ps with
    | nil =>
      obtain ⟨first, rest, hlines⟩ : ∃ first rest, linesOf qs = first :: rest :=
        List.exists_cons_of_ne_nil (by simp [linesOf])
      have hsome : broken [p] ++ qs = some p :: qs := rfl
      rw [hsome, lineAt, linesOf_some, hlines]
      cases line with
      | zero => simp [lineAt, hlines]
      | succ line => simp [lineAt, hlines]
    | cons q ps =>
      rw [broken_cons_cons, List.cons_append, List.cons_append, lineAt, linesOf_some, linesOf_none,
        List.modifyHead_cons]
      cases line with
      | zero => simp
      | succ line =>
        have ih := ih (List.cons_ne_nil q ps) line
        rw [List.getElem?_cons_succ]
        rw [lineAt] at ih
        rw [ih, List.getElem?_cons_succ]
        simp

end Piece

def LinePart.piece (selected : Option Span) (p : LinePart) : Piece :=
  ⟨p.text, p.styles, selected == some p.place⟩

theorem LinePart.onLine_of_lt {line n : Nat} (h : line < n) (places : List (Span × Run)) :
    LinePart.onLine line n places = [] := by
  induction places generalizing n with
  | nil => rfl
  | cons p places ih =>
    rw [LinePart.onLine, Text.onLine_of_lt h, ih (Nat.lt_add_right _ h)]
    rfl

/-- The pieces of runs that are shown on a line are those of the parts on it. -/
theorem LinePart.filter_lineAt (selected : Option Span) {line n : Nat} (h : n ≤ line)
    (places : List (Span × Run)) :
    (Piece.lineAt (line - n) (places.flatMap fun p => Piece.ofRun selected p.1 p.2)).filter
        (fun p => !p.text.isEmpty) =
      (LinePart.onLine line n places).map (LinePart.piece selected) := by
  induction places generalizing n with
  | nil =>
    rw [List.flatMap_nil, LinePart.onLine, List.map_nil, Piece.lineAt]
    cases line - n <;> rfl
  | cons p places ih =>
    have hsplit : Piece.split selected p.1 p.2 ≠ [] := by
      simp [Piece.split, List.splitOn_ne_nil]
    have hlen : (Piece.split selected p.1 p.2).length = p.2.text.count '\n' + 1 := by
      rw [Piece.split, List.length_map, Text.length_splitOn_lineFeed]
    have hpiece : ((Piece.split selected p.1 p.2)[line - n]?.toList).filter
        (fun p => !p.text.isEmpty) =
        if (Text.onLine line n p.2.text).isEmpty then []
        else [LinePart.piece selected ⟨p.1, p.2.styles, Text.onLine line n p.2.text⟩] := by
      rw [Text.onLine_eq h, Piece.split, List.getElem?_map]
      cases (p.2.text.splitOn '\n')[line - n]? with
      | none => rfl
      | some text => cases text <;> rfl
    -- the runs after this one are on the line only if it does not end past the line
    have hlater : (if (Piece.split selected p.1 p.2).length ≤ line - n + 1 then
        Piece.lineAt (line - n + 1 - (Piece.split selected p.1 p.2).length)
          (places.flatMap fun p => Piece.ofRun selected p.1 p.2) else []).filter
          (fun p => !p.text.isEmpty) =
        (LinePart.onLine line (n + p.2.text.count '\n') places).map (LinePart.piece selected) := by
      rw [hlen]
      by_cases hreach : n + p.2.text.count '\n' ≤ line
      · have hline : line - n + 1 - (p.2.text.count '\n' + 1) =
            line - (n + p.2.text.count '\n') := by omega
        rw [if_pos (by omega), hline, ih hreach]
      · rw [if_neg (by omega), LinePart.onLine_of_lt (by omega)]
        rfl
    rw [List.flatMap_cons, Piece.ofRun_eq, Piece.lineAt_broken_append hsplit, List.filter_append,
      hpiece, hlater, LinePart.onLine]
    split
    · rfl
    · rfl

/-! ## Spans and alignment -/

namespace LinePart

theorem shown_piece (selected : Option Span) (p : LinePart) :
    p.Shown selected ⟨p.text, (p.piece selected).look⟩ := by
  have hselected : (p.piece selected).selected = decide (selected = some p.place) := by
    rw [piece, Bool.eq_iff_iff, beq_iff_eq, decide_eq_true_eq]
  refine ⟨rfl, ?_⟩
  rw [← hselected]
  exact (p.piece selected).tells_look

theorem aligned_findSome? (ps : List LinePart) :
    Aligned ps (ps.findSome? fun p => p.styles.alignment?) := by
  induction ps with
  | nil => exact .nil
  | cons p ps ih =>
    rw [List.findSome?_cons, StyleSet.alignment?]
    by_cases hcenter : Attribute.alignCenter ∈ p.styles
    · rw [if_pos hcenter]
      exact .center hcenter
    · by_cases hright : Attribute.alignOpposite ∈ p.styles
      · rw [if_neg hcenter, if_pos hright]
        exact .right hcenter hright
      · rw [if_neg hcenter, if_neg hright]
        exact .skip ⟨hcenter, hright⟩ ih

end LinePart

/-! ## The lines -/

theorem getElem?_of_dropEmptyLast {lines : List DisplayLine} {k : Nat} {l : DisplayLine}
    (h : (dropEmptyLast lines)[k]? = some l) : lines[k]? = some l := by
  rw [dropEmptyLast] at h
  split at h
  · obtain ⟨hlt, heq⟩ := List.getElem?_eq_some_iff.mp h
    rw [List.getElem_dropLast] at heq
    rw [List.length_dropLast] at hlt
    exact List.getElem?_eq_some_iff.mpr ⟨by omega, heq⟩
  · exact h

/-- The line that is left out has no spans. -/
theorem spans_dropEmptyLast (lines : List DisplayLine) (k : Nat) :
    (dropEmptyLast lines)[k]?.elim [] DisplayLine.spans = lines[k]?.elim [] DisplayLine.spans := by
  rcases lines.eq_nil_or_concat' with rfl | ⟨front, l, rfl⟩
  · rfl
  · rw [dropEmptyLast, List.getLast?_concat]
    split
    · next hempty =>
      have hspans : l.spans = [] := List.isEmpty_iff.mp hempty
      rw [List.dropLast_concat]
      rcases Nat.lt_trichotomy k front.length with hlt | rfl | hgt
      · rw [List.getElem?_append_left hlt]
      · simp [hspans]
      · have hpast : ¬ k < front.length + 1 := by omega
        simp [List.getElem?_eq_none_iff.mpr (Nat.le_of_lt hgt), hpast]
    · rfl

namespace StyledText

variable (t : StyledText) (selected : Option Span)

theorem filter_lineAt_pieces (line : Nat) :
    (Piece.lineAt line (t.pieces selected)).filter (fun p => !p.text.isEmpty) =
      (t.partsOn line).map (LinePart.piece selected) := by
  have h := LinePart.filter_lineAt selected (Nat.zero_le line) t.placed
  rw [Nat.sub_zero] at h
  exact h

theorem spans_displayLines (line : Nat) :
    (t.displayLines selected)[line]?.elim [] DisplayLine.spans =
      (t.partsOn line).map fun p => ⟨p.text, (p.piece selected).look⟩ := by
  have hline :
      ((Piece.linesOf (t.pieces selected)).map DisplayLine.ofPieces)[line]?.elim []
        DisplayLine.spans =
      (DisplayLine.ofPieces (Piece.lineAt line (t.pieces selected))).spans := by
    rw [List.getElem?_map, Piece.lineAt]
    cases (Piece.linesOf (t.pieces selected))[line]? <;> rfl
  rw [displayLines_eq, spans_dropEmptyLast, hline, DisplayLine.ofPieces]
  simp only [filter_lineAt_pieces, List.map_map]
  rfl

/-- The spans of a line show the parts on it, one each and in order. -/
theorem shown_displayLines (line : Nat) :
    List.Forall₂ (LinePart.Shown selected) (t.partsOn line)
      ((t.displayLines selected)[line]?.elim [] DisplayLine.spans) := by
  rw [spans_displayLines, List.forall₂_map_right_iff, List.forall₂_same]
  intro p _
  exact p.shown_piece selected

theorem aligned_displayLines {line : Nat} {l : DisplayLine}
    (h : (t.displayLines selected)[line]? = some l) :
    LinePart.Aligned (t.partsOn line) l.alignment := by
  rw [displayLines_eq] at h
  have hline := getElem?_of_dropEmptyLast h
  rw [List.getElem?_map, Option.map_eq_some_iff] at hline
  obtain ⟨ps, hps, rfl⟩ := hline
  have hat : Piece.lineAt line (t.pieces selected) = ps := by
    rw [Piece.lineAt, hps]
    rfl
  have halign : (DisplayLine.ofPieces ps).alignment =
      (t.partsOn line).findSome? fun p => p.styles.alignment? := by
    rw [DisplayLine.ofPieces, ← hat]
    simp only [filter_lineAt_pieces, List.findSome?_map]
    rfl
  rw [halign]
  exact LinePart.aligned_findSome? _

/-- **How the display styles and aligns a text.** For each selection the spans of each line are the
parts on it, one for each run that has characters there and in order. A span has the look of its
run's styles: normal takes bold and italic away, the last tap target gives the colour, every tap
target is underlined; and it is in reverse video if the selection is just the bytes of its run,
which no other run has. A line is aligned as the first part on it that asks for an alignment. -/
theorem displayLines_styled (t : StyledText) (selected : Option Span) :
    ∃ lines, t.ranged.displayLines? selected = some lines ∧
      (t.placed.map Prod.fst).Nodup ∧
      ∀ line,
        ((t.partsOn line).map fun p => (p.place, p.styles)).Sublist
          (t.placed.map fun p => (p.1, p.2.styles)) ∧
        List.Forall₂ (LinePart.Shown selected) (t.partsOn line)
          (lines[line]?.elim [] DisplayLine.spans) ∧
        ∀ l, lines[line]? = some l → LinePart.Aligned (t.partsOn line) l.alignment := by
  refine ⟨t.displayLines selected, RangedText.displayLines?_ranged t selected,
    Run.nodup_placedFrom t.canonical 0, ?_⟩
  intro line
  refine ⟨LinePart.map_onLine_sublist line 0 t.placed, t.shown_displayLines selected line, ?_⟩
  intro l hl
  exact t.aligned_displayLines selected hl

end StyledText

end Passage
