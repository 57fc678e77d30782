import Passage.Styled.Run
import Passage.Text.Utf8

/-! Styled text: a canonical list of runs. It is determined by its styled characters
(`eq_iff_chars`), and every operation is given by one equation over them, so a text may be
built piece by piece in any way that puts the same characters in the same order. -/

namespace Passage

/-- Characters with styles, as runs of which none is empty and no neighbours agree. -/
structure StyledText where
  runs : List Run
  canonical : Run.Canonical runs

namespace StyledText

def chars (t : StyledText) : List StyledChar :=
  Run.charsOf t.runs

/-- The characters of a text, without their styles. -/
def text (t : StyledText) : List Char :=
  t.runs.flatMap Run.text

def ofRuns (rs : List Run) : StyledText :=
  ⟨Run.normalize rs, Run.canonical_normalize rs⟩

def empty : StyledText := ⟨[], trivial⟩

instance : EmptyCollection StyledText := ⟨empty⟩

instance : Inhabited StyledText := ⟨empty⟩

def styled (cs : List Char) (styles : StyleSet) : StyledText :=
  ofRuns [⟨cs, styles⟩]

def plain (cs : List Char) : StyledText :=
  styled cs ∅

def isEmpty (t : StyledText) : Bool :=
  t.runs.isEmpty

def append (t u : StyledText) : StyledText :=
  ofRuns (t.runs ++ u.runs)

instance : Append StyledText := ⟨append⟩

def concat (ts : List StyledText) : StyledText :=
  ofRuns (ts.flatMap runs)

def addStyles (t : StyledText) (attributes : List Attribute) : StyledText :=
  ofRuns (t.runs.map fun r => ⟨r.text, r.styles.insertAll attributes⟩)

/-- The text with each run's characters mapped, under the same styles. -/
def mapText (f : List Char → List Char) (t : StyledText) : StyledText :=
  ofRuns (t.runs.map fun r => ⟨f r.text, r.styles⟩)

/-- The characters of a span of characters, with their styles. -/
def extract (t : StyledText) (s : Span) : StyledText :=
  ofRuns (Run.cut (s.stop - s.start) (Run.cut s.start t.runs).2).1

/-! ## Equations over the styled characters -/

theorem eq_iff_chars {t u : StyledText} : t = u ↔ t.chars = u.chars := by
  constructor
  · exact congrArg chars
  · intro h
    cases t; cases u
    congr
    exact Run.Canonical.eq_of_charsOf_eq ‹_› ‹_› h

@[simp] theorem chars_ofRuns (rs : List Run) : (ofRuns rs).chars = Run.charsOf rs :=
  Run.charsOf_normalize rs

@[simp] theorem ofRuns_runs (t : StyledText) : ofRuns t.runs = t :=
  eq_iff_chars.mpr (chars_ofRuns t.runs)

@[simp] theorem chars_empty : (∅ : StyledText).chars = [] := rfl

@[simp] theorem chars_styled (cs : List Char) (styles : StyleSet) :
    (styled cs styles).chars = cs.map fun c => (c, styles) := by
  simp [styled, Run.chars]

@[simp] theorem chars_plain (cs : List Char) :
    (plain cs).chars = cs.map fun c => (c, ∅) :=
  chars_styled cs ∅

@[simp] theorem chars_append (t u : StyledText) : (t ++ u).chars = t.chars ++ u.chars := by
  change (append t u).chars = _
  rw [append, chars_ofRuns, Run.charsOf_append, chars, chars]

@[simp] theorem chars_concat (ts : List StyledText) : (concat ts).chars = ts.flatMap chars := by
  rw [concat, chars_ofRuns]
  induction ts with
  | nil => rfl
  | cons t ts ih => simp [ih, chars]

@[simp] theorem chars_addStyles (t : StyledText) (attributes : List Attribute) :
    (t.addStyles attributes).chars = t.chars.map fun c => (c.1, c.2.insertAll attributes) := by
  rw [addStyles, chars_ofRuns, chars]
  induction t.runs with
  | nil => rfl
  | cons r rs ih => simp [ih, Run.chars]

@[simp] theorem chars_extract (t : StyledText) (s : Span) :
    (t.extract s).chars = (t.chars.drop s.start).take (s.stop - s.start) := by
  rw [extract, chars_ofRuns, (Run.charsOf_cut _ _).1, (Run.charsOf_cut _ _).2, chars]

/-- A map that acts on each character alone does not see the runs. -/
theorem chars_mapText_flatMap (f : Char → List Char) (t : StyledText) :
    (t.mapText (·.flatMap f)).chars = t.chars.flatMap fun c => (f c.1).map fun d => (d, c.2) := by
  rw [mapText, chars_ofRuns, chars]
  induction t.runs with
  | nil => rfl
  | cons r rs ih =>
    rw [List.map_cons, Run.charsOf_cons, Run.charsOf_cons, ih, List.flatMap_append]
    simp [Run.chars, List.flatMap_map, List.map_flatMap]

theorem text_eq_map_chars (t : StyledText) : t.text = t.chars.map Prod.fst := by
  simp only [text, chars]
  induction t.runs with
  | nil => rfl
  | cons r rs ih => simp [ih, Run.chars, Function.comp_def]

@[simp] theorem text_plain (cs : List Char) : (plain cs).text = cs := by
  simp [text_eq_map_chars, Function.comp_def]

@[simp] theorem text_append (t u : StyledText) : (t ++ u).text = t.text ++ u.text := by
  simp [text_eq_map_chars]

instance : DecidableEq StyledText := fun t u =>
  decidable_of_iff (t.runs = u.runs) ⟨fun h => by cases t; cases u; simp_all, congrArg runs⟩

end StyledText

end Passage
