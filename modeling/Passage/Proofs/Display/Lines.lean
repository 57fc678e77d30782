import Passage.Display.Builder
import Passage.Proofs.Styled.Slices
import Passage.Proofs.Text.Lines

/-! What the terminal shows of a text. The lines that are built mark by mark are the lines of
`StyledText.displayLines` (`displayLines?_ranged`), and the characters on them are those of
`Text.lines` (`map_text_displayLines`): no character is lost, doubled or moved to another line. -/

namespace Passage

def DisplayLine.text (l : DisplayLine) : List Char :=
  l.spans.flatMap DisplaySpan.text

/-! ## Pieces and their characters -/

namespace Piece

/-- The characters of pieces, with a line feed for each break between them. -/
def textOf (ps : List (Option Piece)) : List Char :=
  ps.flatMap fun p => p.elim ['\n'] Piece.text

def linesOf (ps : List (Option Piece)) : List (List Piece) :=
  (ps.splitOnP Option.isNone).map (·.filterMap id)

/-- Pieces with a break between each two. -/
def broken (ps : List Piece) : List (Option Piece) :=
  (ps.map some).intersperse none

def split (selected : Option Span) (place : Span) (r : Run) : List Piece :=
  (r.text.splitOn '\n').map fun text => ⟨text, r.styles, selected == some place⟩

theorem ofRun_eq (selected : Option Span) (place : Span) (r : Run) :
    ofRun selected place r = broken (split selected place r) := by
  rw [ofRun, broken, split, List.map_map]
  rfl

theorem linesOf_none (ps : List (Option Piece)) : linesOf (none :: ps) = [] :: linesOf ps := by
  simp [linesOf, List.splitOnP_cons_eq_if_modifyHead]

theorem linesOf_some (p : Piece) (ps : List (Option Piece)) :
    linesOf (some p :: ps) = (linesOf ps).modifyHead (p :: ·) := by
  obtain ⟨line, rest, heq⟩ := List.exists_cons_of_ne_nil (List.splitOnP_ne_nil Option.isNone ps)
  simp [linesOf, List.splitOnP_cons_eq_if_modifyHead, heq]

theorem broken_cons_cons (p q : Piece) (ps : List Piece) :
    broken (p :: q :: ps) = some p :: none :: broken (q :: ps) :=
  rfl

theorem mem_of_some_mem_broken {p : Piece} {ps : List Piece} (h : some p ∈ broken ps) : p ∈ ps := by
  induction ps with
  | nil => cases h
  | cons q ps ih =>
    cases ps with
    | nil =>
      rw [List.mem_singleton.mp h |> Option.some.inj]
      exact List.mem_singleton_self q
    | cons next ps =>
      rw [broken_cons_cons, List.mem_cons, List.mem_cons] at h
      rcases h with h | h | h
      · exact Option.some.inj h ▸ List.mem_cons_self
      · cases h
      · exact List.mem_cons_of_mem q (ih h)

theorem textOf_broken (ps : List Piece) :
    textOf (broken ps) = ['\n'].intercalate (ps.map Piece.text) := by
  induction ps with
  | nil => rfl
  | cons p ps ih =>
    cases ps with
    | nil => simp [textOf, broken]
    | cons q ps =>
      rw [List.map_cons, List.map_cons, List.intercalate_cons_cons, ← List.map_cons, ← ih,
        broken_cons_cons, List.append_assoc]
      rfl

theorem textOf_ofRun (selected : Option Span) (place : Span) (r : Run) :
    textOf (ofRun selected place r) = r.text := by
  have htexts : (split selected place r).map Piece.text = r.text.splitOn '\n' := by
    rw [split, List.map_map]
    exact List.map_id _
  rw [ofRun_eq, textOf_broken, htexts, List.intercalate_splitOn]

theorem lineFeed_notMem_of_mem_ofRun {selected : Option Span} {place : Span} {r : Run} {p : Piece}
    (h : some p ∈ ofRun selected place r) : '\n' ∉ p.text := by
  rw [ofRun_eq] at h
  obtain ⟨text, hmem, rfl⟩ := List.mem_map.mp (mem_of_some_mem_broken h)
  exact Text.lineFeed_notMem_of_mem_splitOn hmem

/-- Pieces that hold no line feed are on the lines that their characters are on. -/
theorem map_text_linesOf {ps : List (Option Piece)} (h : ∀ p, some p ∈ ps → '\n' ∉ p.text) :
    (linesOf ps).map (fun line => line.flatMap Piece.text) = (textOf ps).splitOn '\n' := by
  induction ps with
  | nil => rfl
  | cons p ps ih =>
    have ih := ih fun q hq => h q (List.mem_cons_of_mem _ hq)
    cases p with
    | none =>
      have htext : textOf (none :: ps) = '\n' :: textOf ps := rfl
      rw [linesOf_none, List.map_cons, ih, htext, List.splitOn_cons_eq_if_modifyHead]
      rfl
    | some p =>
      have htext : textOf (some p :: ps) = p.text ++ textOf ps := rfl
      rw [linesOf_some, htext, Text.splitOn_lineFeed_append (h p List.mem_cons_self), ← ih]
      cases linesOf ps <;> rfl

end Piece

/-! ## The characters on the lines -/

namespace DisplayLine

theorem text_ofPieces (ps : List Piece) : (ofPieces ps).text = ps.flatMap Piece.text := by
  induction ps with
  | nil => rfl
  | cons p ps ih =>
    rw [List.flatMap_cons, ← ih]
    by_cases hp : p.text = []
    · simp [ofPieces, DisplayLine.text, hp]
    · simp [ofPieces, DisplayLine.text, hp]

theorem ne_nil_of_mem_spans_ofPieces {ps : List Piece} {s : DisplaySpan}
    (h : s ∈ (ofPieces ps).spans) : s.text ≠ [] := by
  obtain ⟨p, hp, rfl⟩ := List.mem_map.mp h
  simpa using (List.mem_filter.mp hp).2

theorem isEmpty_spans_ofPieces (ps : List Piece) :
    (ofPieces ps).spans.isEmpty = (ofPieces ps).text.isEmpty := by
  cases hspans : (ofPieces ps).spans with
  | nil => rw [DisplayLine.text, hspans]; rfl
  | cons s rest =>
    have hs : s.text ≠ [] := ne_nil_of_mem_spans_ofPieces (hspans ▸ List.mem_cons_self)
    simp [DisplayLine.text, hspans, hs]

end DisplayLine

namespace StyledText

/-- The pieces of a text, with a break for each line feed. -/
def pieces (t : StyledText) (selected : Option Span) : List (Option Piece) :=
  t.placed.flatMap fun p => Piece.ofRun selected p.1 p.2

theorem displayLines_eq (t : StyledText) (selected : Option Span) :
    t.displayLines selected =
      dropEmptyLast ((Piece.linesOf (t.pieces selected)).map DisplayLine.ofPieces) := by
  rw [displayLines, Piece.linesOf, List.map_map]
  rfl

theorem textOf_pieces (t : StyledText) (selected : Option Span) :
    Piece.textOf (t.pieces selected) = t.text := by
  have hruns : ∀ places : List (Span × Run),
      Piece.textOf (places.flatMap fun p => Piece.ofRun selected p.1 p.2) =
        (places.map Prod.snd).flatMap Run.text := by
    intro places
    induction places with
    | nil => rfl
    | cons p places ih =>
      rw [List.flatMap_cons, List.map_cons, List.flatMap_cons, ← ih,
        ← Piece.textOf_ofRun selected p.1 p.2]
      exact List.flatMap_append
  rw [pieces, hruns, placed, Run.map_snd_placedFrom, text]

theorem lineFeed_notMem_of_mem_pieces {t : StyledText} {selected : Option Span} {p : Piece}
    (h : some p ∈ t.pieces selected) : '\n' ∉ p.text := by
  obtain ⟨_, -, hp⟩ := List.mem_flatMap.mp h
  exact Piece.lineFeed_notMem_of_mem_ofRun hp

/-- The characters on the lines are the lines of the characters. -/
theorem map_text_displayLines (t : StyledText) (selected : Option Span) :
    (t.displayLines selected).map DisplayLine.text = Text.lines t.text := by
  have hstretches : ((Piece.linesOf (t.pieces selected)).map DisplayLine.ofPieces).map
      DisplayLine.text = t.text.splitOn '\n' := by
    rw [List.map_map, ← textOf_pieces t selected,
      ← Piece.map_text_linesOf fun p => lineFeed_notMem_of_mem_pieces]
    exact List.map_congr_left fun ps _ => DisplayLine.text_ofPieces ps
  have hempty : (((Piece.linesOf (t.pieces selected)).map DisplayLine.ofPieces).getLast?.any
      fun l => l.spans.isEmpty) = (t.text.splitOn '\n').getLast?.any List.isEmpty := by
    rw [← hstretches, List.getLast?_map, List.getLast?_map, List.getLast?_map]
    cases (Piece.linesOf (t.pieces selected)).getLast? with
    | none => rfl
    | some ps => exact DisplayLine.isEmpty_spans_ofPieces ps
  simp only [displayLines_eq, dropEmptyLast, Text.lines, hempty]
  split
  · rw [List.map_dropLast, hstretches]
  · exact hstretches

theorem ne_nil_of_mem_displayLines {t : StyledText} {selected : Option Span} {l : DisplayLine}
    (hl : l ∈ t.displayLines selected) {s : DisplaySpan} (hs : s ∈ l.spans) : s.text ≠ [] := by
  rw [displayLines_eq, dropEmptyLast] at hl
  have hl : l ∈ (Piece.linesOf (t.pieces selected)).map DisplayLine.ofPieces := by
    split at hl
    · exact List.dropLast_subset _ hl
    · exact hl
  obtain ⟨ps, -, rfl⟩ := List.mem_map.mp hl
  exact DisplayLine.ne_nil_of_mem_spans_ofPieces hs

theorem lineFeed_notMem_of_mem_displayLines {t : StyledText} {selected : Option Span}
    {l : DisplayLine} (hl : l ∈ t.displayLines selected) {s : DisplaySpan} (hs : s ∈ l.spans) :
    '\n' ∉ s.text := by
  have hline : l.text ∈ Text.lines t.text := by
    rw [← map_text_displayLines t selected]
    exact List.mem_map_of_mem hl
  intro hmem
  exact Text.lineFeed_notMem_of_mem_lines hline (List.mem_flatMap.mpr ⟨s, hs, hmem⟩)

end StyledText

/-! ## Building the lines -/

namespace LinesBuilder

/-- A piece goes on the line, a break finishes it. -/
def step (b : LinesBuilder) : Option Piece → LinesBuilder
  | some p => { b with current := b.current.push p }
  | none => ⟨b.finished ++ [b.current.finish], {}⟩

theorem pushAll_eq (b : LinesBuilder) (ps : List Piece) :
    b.pushAll ps = (Piece.broken ps).foldl step b := by
  induction ps generalizing b with
  | nil => rfl
  | cons p ps ih =>
    cases ps with
    | nil => rfl
    | cons q ps =>
      rw [pushAll, ih, Piece.broken_cons_cons]
      rfl

def lineOf (ps : List Piece) : LineBuilder :=
  ps.foldl LineBuilder.push {}

theorem lineOf_concat (ps : List Piece) (p : Piece) : lineOf (ps ++ [p]) = (lineOf ps).push p :=
  List.foldl_concat LineBuilder.push {} p ps

theorem finish_lineOf (ps : List Piece) : (lineOf ps).finish = DisplayLine.ofPieces ps := by
  induction ps using List.reverseRecOn with
  | nil => rfl
  | append_singleton ps p ih =>
    simp only [LineBuilder.finish, DisplayLine.ofPieces, DisplayLine.mk.injEq] at ih
    obtain ⟨halignment, hspans⟩ := ih
    rw [lineOf_concat, LineBuilder.push]
    by_cases hp : p.text = []
    · simp [LineBuilder.finish, DisplayLine.ofPieces, hp, halignment, hspans]
    · simp [LineBuilder.finish, DisplayLine.ofPieces, hp, halignment, hspans, List.findSome?_append]

/-- The lines of pieces that are added while the line of `ps` is unfinished. -/
theorem lines_foldl_step (finished : List DisplayLine) (ps : List Piece)
    (qs : List (Option Piece)) :
    (qs.foldl step ⟨finished, lineOf ps⟩).lines = dropEmptyLast
      (finished ++ ((Piece.linesOf qs).modifyHead (ps ++ ·)).map DisplayLine.ofPieces) := by
  induction qs generalizing finished ps with
  | nil =>
    have hempty : (lineOf ps).spans = (DisplayLine.ofPieces ps).spans :=
      congrArg DisplayLine.spans (finish_lineOf ps)
    simp [lines, dropEmptyLast, Piece.linesOf, finish_lineOf, hempty]
  | cons q qs ih =>
    rw [List.foldl_cons]
    cases q with
    | none =>
      have hrest := ih (finished ++ [DisplayLine.ofPieces ps]) []
      have hid : (Piece.linesOf qs).modifyHead (([] : List Piece) ++ ·) = Piece.linesOf qs := by
        cases Piece.linesOf qs <;> rfl
      rw [hid] at hrest
      rw [step, finish_lineOf, Piece.linesOf_none, List.modifyHead_cons, List.append_nil,
        List.map_cons]
      rw [List.append_assoc] at hrest
      exact hrest
    | some p =>
      have hrest := ih finished (ps ++ [p])
      have hjoin : ((Piece.linesOf qs).modifyHead (p :: ·)).modifyHead (ps ++ ·) =
          (Piece.linesOf qs).modifyHead (ps ++ [p] ++ ·) := by
        cases Piece.linesOf qs with
        | nil => rfl
        | cons line rest => simp
      rw [Piece.linesOf_some, hjoin, ← hrest, lineOf_concat]
      rfl

/-- The marks of runs, read in the text they stand in, add the pieces of the runs. -/
theorem foldlM_addMark? (selected : Option Span) (front back : List Char) (rs : List Run)
    (b : LinesBuilder) :
    (Run.marksFrom (Text.byteLength front) rs).foldlM
        (addMark? selected (front ++ (rs.flatMap Run.text ++ back))) b =
      some (((Run.placedFrom (Text.byteLength front) rs).flatMap fun p =>
        Piece.ofRun selected p.1 p.2).foldl step b) := by
  induction rs generalizing front b with
  | nil => rfl
  | cons r rs ih =>
    have hslice := Text.sliceBytes?_append front r.text (rs.flatMap Run.text ++ back)
    have hrest := ih (front ++ r.text) (b.pushAll (Piece.split selected
      ⟨Text.byteLength front, Text.byteLength front + Text.byteLength r.text⟩ r))
    rw [Text.byteLength_append, List.append_assoc] at hrest
    rw [Run.marksFrom_cons, List.foldlM_cons, addMark?]
    simp only [List.flatMap_cons, List.append_assoc, hslice, Run.placedFrom, List.foldl_append,
      Piece.ofRun_eq, ← pushAll_eq]
    simp only [Piece.ofRun_eq] at hrest
    exact hrest

end LinesBuilder

/-- Building mark by mark never fails on a styled text and gives its lines. -/
theorem RangedText.displayLines?_ranged (t : StyledText) (selected : Option Span) :
    t.ranged.displayLines? selected = some (t.displayLines selected) := by
  have hmarks := LinesBuilder.foldlM_addMark? selected [] [] t.runs {}
  rw [List.append_nil, List.nil_append] at hmarks
  have hlines := LinesBuilder.lines_foldl_step [] [] (t.pieces selected)
  have hid : (Piece.linesOf (t.pieces selected)).modifyHead (([] : List Piece) ++ ·) =
      Piece.linesOf (t.pieces selected) := by
    cases Piece.linesOf (t.pieces selected) <;> rfl
  rw [hid, List.nil_append, ← StyledText.displayLines_eq] at hlines
  rw [displayLines?, ← hlines]
  exact congrArg (Option.map LinesBuilder.lines) hmarks

/-- **The display conserves text and lines.** Lines are built for every text and every selection.
Their spans are not empty and hold no line feed; joined with line feeds they are the text without
a line feed at its end; there is one for each line feed and one for an open end; and a character
that is no line feed stands on the line that the line feeds before it count, between the
characters that the text has around it there. -/
theorem StyledText.displayLines_conserve (t : StyledText) (selected : Option Span) :
    ∃ lines, t.ranged.displayLines? selected = some lines ∧
      (∀ l ∈ lines, ∀ s ∈ l.spans, s.text ≠ [] ∧ '\n' ∉ s.text) ∧
      ['\n'].intercalate (lines.map DisplayLine.text) =
        (if t.text.getLast? = some '\n' then t.text.dropLast else t.text) ∧
      lines.length =
        t.text.count '\n' + (if t.text = [] ∨ t.text.getLast? = some '\n' then 0 else 1) ∧
      ∀ offset front c back, Text.takeBytes? offset t.text = some front →
        Text.dropBytes? offset t.text = some (c :: back) → c ≠ '\n' →
        (lines[front.count '\n']?).map DisplayLine.text =
          some (front.rtakeWhile (· != '\n') ++ c :: back.takeWhile (· != '\n')) := by
  have htexts := map_text_displayLines t selected
  refine ⟨t.displayLines selected, RangedText.displayLines?_ranged t selected, ?_, ?_, ?_, ?_⟩
  · intro l hl s hs
    exact ⟨ne_nil_of_mem_displayLines hl hs, lineFeed_notMem_of_mem_displayLines hl hs⟩
  · rw [htexts, Text.intercalate_lines]
  · rw [← List.length_map DisplayLine.text, htexts, Text.length_lines]
  · intro offset front c back hfront hback hc
    rw [← List.getElem?_map, htexts, Text.eq_append_of_takeBytes? hfront hback]
    exact Text.getElem?_lines front back hc

/-- The second line of a text of two. -/
theorem StyledText.displayLines_conserve_second_line :
    ∃ lines, (plain "a\nb\n".toList).ranged.displayLines? none = some lines ∧
      lines.length = 2 ∧ (lines[1]?).map DisplayLine.text = some ['b'] := by
  obtain ⟨lines, hlines, -, -, hlength, hplace⟩ :=
    displayLines_conserve (plain "a\nb\n".toList) none
  exact ⟨lines, hlines, hlength, hplace 2 ['a', '\n'] 'b' ['\n'] rfl rfl (by decide)⟩

end Passage
