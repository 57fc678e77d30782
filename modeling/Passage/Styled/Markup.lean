import Passage.Styled.Text

/-! The debugging form of styled text: a styled run stands between a bracketed list of
its attributes and `[/]`, an unstyled one as it is. -/

namespace Passage

def Attribute.label : Attribute → String
  | bold => "bold"
  | italic => "italic"
  | normal => "normal"
  | alignCenter => "center"
  | alignOpposite => "opposite"
  | clickable ⟨.verse, payload⟩ => "verse=" ++ payload
  | clickable ⟨.note, payload⟩ => "note=" ++ payload

def StyleSet.labels (s : StyleSet) : List String :=
  s.attributes.map Attribute.label

def Run.markup (r : Run) : String :=
  if r.styles.isEmpty then String.ofList r.text
  else "[" ++ ",".intercalate r.styles.labels ++ "]" ++ String.ofList r.text ++ "[/]"

/-- A text in the debugging form. -/
def StyledText.markup (t : StyledText) : String :=
  String.join (t.runs.map Run.markup)

end Passage
