import Passage.Styled.Text
import Passage.Text.Uppercase

/-! Styled text from its characters. A text is determined by its styled characters, and every
list of styled characters is the list of some text (`ofChars`); so an operation may be
specified by the characters of its result alone. -/

namespace Passage.StyledText

def ofChars (cs : List StyledChar) : StyledText :=
  ofRuns (cs.map fun c => ⟨[c.1], c.2⟩)

@[simp] theorem chars_ofChars (cs : List StyledChar) : (ofChars cs).chars = cs := by
  rw [ofChars, chars_ofRuns]
  induction cs with
  | nil => rfl
  | cons c cs ih => simp [ih, Run.chars]

@[simp] theorem ofChars_chars (t : StyledText) : ofChars t.chars = t :=
  eq_iff_chars.mpr (chars_ofChars t.chars)

theorem eq_ofChars_iff {t : StyledText} {cs : List StyledChar} :
    t = ofChars cs ↔ t.chars = cs := by
  rw [eq_iff_chars, chars_ofChars]

@[simp] theorem text_ofChars (cs : List StyledChar) : (ofChars cs).text = cs.map Prod.fst := by
  rw [text_eq_map_chars, chars_ofChars]

theorem empty_append (t : StyledText) : ∅ ++ t = t := by
  simp [eq_iff_chars]

theorem append_empty (t : StyledText) : t ++ ∅ = t := by
  simp [eq_iff_chars]

theorem append_assoc (t u v : StyledText) : t ++ u ++ v = t ++ (u ++ v) := by
  simp [eq_iff_chars]

theorem length_text (t : StyledText) : t.text.length = t.chars.length := by
  simp [text_eq_map_chars]

/-- A part of a part: its place in the whole is its place in the part, moved by where that
starts. -/
theorem chars_extract_extract (t : StyledText) (s u : Span) (h : s.start + u.stop ≤ s.stop) :
    ((t.extract s).extract u).chars =
      (t.extract ⟨s.start + u.start, s.start + u.stop⟩).chars := by
  simp only [chars_extract, List.drop_take, List.take_take, List.drop_drop]
  congr 1
  omega

@[simp] theorem chars_mapText_upper (t : StyledText) :
    (t.mapText Text.upper).chars =
      t.chars.flatMap fun c => (Text.upperChar c.1).map fun d => (d, c.2) :=
  chars_mapText_flatMap Text.upperChar t

/-! ## Texts under one style set -/

@[simp] theorem text_styled (cs : List Char) (styles : StyleSet) :
    (styled cs styles).text = cs := by
  simp [text_eq_map_chars, Function.comp_def]

theorem addStyles_plain (cs : List Char) (attributes : List Attribute) :
    (plain cs).addStyles attributes = styled cs (.ofList attributes) := by
  rw [eq_iff_chars, chars_addStyles, chars_plain, chars_styled, List.map_map]
  rfl

theorem mapText_upper_plain (cs : List Char) :
    (plain cs).mapText Text.upper = plain (Text.upper cs) := by
  simp [eq_iff_chars, Text.upper, List.flatMap_map, List.map_flatMap]

theorem extract_plain (cs : List Char) (s : Span) :
    (plain cs).extract s = plain (Text.slice cs s) := by
  simp [eq_iff_chars, Text.slice]

end Passage.StyledText
