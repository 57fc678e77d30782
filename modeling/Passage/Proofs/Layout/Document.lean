import Mathlib.Algebra.Ring.Nat
import Mathlib.Data.List.Chain
import Passage.Render.Config
import Passage.Render.Stage
import Passage.Styled.Text
import Passage.Text.Uppercase
import Passage.Verse.Marker

/-! Documents of block tags, printed one after the other, and how they are laid out. The layout
of a block depends on the blocks before and after it: a paragraph starts a line unless it comes
first, a poetic line is set off from the neighbours that bring no line break of their own, and a
verse tag is shown only if no earlier one has its number. -/

namespace Passage.Document

/-- Blanks are single spaces, and none comes first. -/
structure Tidy (cs : List Char) : Prop where
  spaces : ∀ c ∈ cs, Text.isBlank c = true → c = ' '
  single : cs.IsChain fun c d => ¬ (c = ' ' ∧ d = ' ')
  head : cs.head? ≠ some ' '

instance (cs : List Char) : Decidable (Tidy cs) :=
  decidable_of_iff ((cs.all fun c => !Text.isBlank c || c == ' ') = true ∧
      (cs.IsChain fun c d => ¬ (c = ' ' ∧ d = ' ')) ∧ cs.head? ≠ some ' ') <| by
    have hspaces : (cs.all fun c => !Text.isBlank c || c == ' ') = true ↔
        ∀ c ∈ cs, Text.isBlank c = true → c = ' ' := by
      simp [List.all_eq_true, Decidable.imp_iff_not_or]
    rw [hspaces]
    exact ⟨fun ⟨h1, h2, h3⟩ => ⟨h1, h2, h3⟩, fun ⟨h1, h2, h3⟩ => ⟨h1, h2, h3⟩⟩

/-- Tidy text without tags. -/
structure Phrase where
  text : List Char
  ne_nil : text ≠ []
  noTag : '<' ∉ text
  tidy : Tidy text

/-- A part of a block's content: text, or a verse tag. -/
inductive Inline
  | text (cs : List Char) (ne_nil : cs ≠ []) (noTag : '<' ∉ cs)
  | verse (n : Nat) (fits : n < VerseMarker.bound)

def Inline.source : Inline → List Char
  | text cs _ _ => cs
  | verse n _ => "<verse number=\"".toList ++ Text.decimal n ++ "\" style=\"v\" />".toList

def Inline.numbers : Inline → List Nat
  | text .. => []
  | verse n _ => [n]

/-- Tidy text with verse tags. -/
structure Content where
  inlines : List Inline
  ne_nil : inlines ≠ []
  tidy : Tidy (inlines.flatMap Inline.source)

namespace Content

def source (c : Content) : List Char :=
  c.inlines.flatMap Inline.source

def numbers (c : Content) : List Nat :=
  c.inlines.flatMap Inline.numbers

def opensWithVerse (c : Content) : Bool :=
  match c.inlines with
  | .verse .. :: _ => true
  | _ => false

end Content

inductive Element
  | majorHeading (t : Phrase)
  | heading (t : Phrase)
  | paragraph (c : Content)
  | blankLine
  | poeticLine (level : Nat) (fits : level < 2 ^ 64) (c : Content)
  | oppositeLine (t : Phrase)
  | chapterLabel (t : Phrase)

/-- `<para style="S">…</para>`. -/
def para (style body : List Char) : List Char :=
  "<para style=\"".toList ++ style ++ "\">".toList ++ body ++ "</para>".toList

namespace Element

def source : Element → List Char
  | majorHeading t => para ['m', 's'] t.text
  | heading t => para ['s'] t.text
  | paragraph c => para ['p'] c.source
  | blankLine => "<para style=\"b\"/>".toList
  | poeticLine level _ c => para ('q' :: Text.decimal level) c.source
  | oppositeLine t => para ['q', 'r'] t.text
  | chapterLabel t => para ['c', 'l'] t.text

def numbers : Element → List Nat
  | paragraph c | poeticLine _ _ c => c.numbers
  | _ => []

/-- Whether the block brings no line break of its own to its end. -/
def isOpen : Element → Bool
  | poeticLine .. | oppositeLine _ | chapterLabel _ => true
  | _ => false

def isHeading : Element → Bool
  | majorHeading _ | heading _ => true
  | _ => false

end Element

/-! ## Layout -/

/-- A part under the styles of its block, after the verse numbers of `seen`. -/
def Inline.layout (breaks : Bool) (styles : StyleSet) (seen : List Nat) : Inline → StyledText
  | text cs _ _ => .styled cs styles
  | verse n _ =>
    if n ∈ seen then ∅
    else
      .plain (if breaks then ['\n'] else []) ++ .styled (Text.decimal n) (.ofList [.bold]) ++
        .plain [' ']

def layoutInlines (breaks : Bool) (styles : StyleSet) (seen : List Nat) :
    List Inline → StyledText
  | [] => ∅
  | i :: rest =>
    i.layout breaks styles seen ++ layoutInlines breaks styles (seen ++ i.numbers) rest

/-- The spaces before a poetic line: four for each level up to 16, and two less before a verse
tag. -/
def indentWidth (level : Nat) (c : Content) : Nat :=
  if 0 < level && c.opensWithVerse then 4 * min 16 level - 2 else 4 * min 16 level

/-- The line break before a poetic line, after the blocks of `done`. -/
def leadingBreak (done : List Element) : List Char :=
  if done.getLast?.any Element.isOpen then ['\n'] else []

/-- The line break after a poetic line, before the blocks of `rest`. -/
def trailingBreak (rest : List Element) : List Char :=
  if rest.head?.any Element.isHeading && rest.any Element.isOpen then ['\n'] else []

/-- Content under the styles of its block, after the verse numbers of `seen`. -/
def Content.layout (breaks : Bool) (styles : StyleSet) (seen : List Nat) (c : Content) :
    StyledText :=
  layoutInlines breaks styles seen c.inlines

/-- A block after those of `done` and before those of `rest`, with its content laid out by
`content`. -/
def Element.layoutWith (content : StyleSet → List Nat → Content → StyledText)
    (done rest : List Element) : Element → StyledText
  | majorHeading t =>
    .styled (Text.upper t.text) (.ofList [.bold, .alignCenter]) ++ .plain ['\n']
  | heading t => .styled t.text (.ofList [.bold, .alignCenter]) ++ .plain ['\n']
  | paragraph c =>
    .plain (if done.isEmpty then "    ".toList else "\n    ".toList) ++
      content ∅ (done.flatMap numbers) c ++ .plain ['\n']
  | blankLine => .plain ['\n', '\n']
  | poeticLine level _ c =>
    .plain (leadingBreak done ++ List.replicate (indentWidth level c) ' ') ++
      content (.ofList [.normal]) (done.flatMap numbers) c ++ .plain (trailingBreak rest)
  | oppositeLine t => .plain ['\n'] ++ .styled t.text (.ofList [.italic, .alignOpposite])
  | chapterLabel t => .styled t.text (.ofList [.bold])

/-- Blocks one after the other, after those of `done`. -/
def spread (f : List Element → List Element → Element → StyledText) (done : List Element) :
    List Element → StyledText
  | [] => ∅
  | e :: rest => f done rest e ++ spread f (done ++ [e]) rest

/-- The blocks that are left when a major heading that comes first is suppressed. -/
def remaining (suppress : Bool) : List Element → List Element
  | .majorHeading t :: rest => if suppress then rest else .majorHeading t :: rest
  | doc => doc

/-- All verses are shown, whatever their numbers, and nothing can be tapped. -/
def config (suppress breaks : Bool) : RenderConfig where
  renderVerses := true
  expected := .unconstrained
  suppressLeadingHeading := suppress
  breakBeforeVerses := breaks
  verseHandler := false
  noteHandler := false

def source (doc : List Element) : List Char :=
  doc.flatMap Element.source

def layout (suppress breaks : Bool) (doc : List Element) : StyledText :=
  spread (Element.layoutWith (Content.layout breaks)) [] (remaining suppress doc)

end Passage.Document
