import Passage.Render.Inline
import Passage.Render.Poetry
import Passage.Render.Stage

/-! The render: each stage takes the output of the one before. The cancel token is polled
before each stage and before each match in it. A stage that sees it raised has no output,
its input is the output of the render, and no later stage runs. -/

namespace Passage

namespace Stage

/-- The output of a stage; none if it was cancelled. -/
def run (config : RenderConfig) (polls : Polls) (t : StyledText) : Stage → Option StyledText
  | trim => t.replace .blankEdges polls fun _ => ∅
  | lineBreaks => t.replace .lineBreaks polls fun _ => .plain [' ']
  | whitespace => t.replace .blanks polls fun _ => .plain [' ']
  | majorSectionHeading =>
    t.replace (pattern majorSectionHeading) polls
      (Block.majorHeadingAt config.suppressLeadingHeading)
  | sectionHeading =>
    t.replace (pattern sectionHeading) polls fun o => Block.heading (o.group 0)
  | paragraph => t.replace (pattern paragraph) polls Block.paragraphAt
  | blankLine => t.replace (pattern blankLine) polls fun _ => Block.blankLine
  | poeticLine => t.replace (pattern poeticLine) polls (Poetry.lineAt t.text)
  | rightAlignedPoeticLine =>
    t.replace (pattern rightAlignedPoeticLine) polls fun o => Block.oppositeLine (o.group 0)
  | verse => versePass config polls t
  | note => t.replace .note polls noteAt
  | chapterLabel =>
    t.replace (pattern chapterLabel) polls fun o => Block.chapterLabel (o.group 0)
  | selah => t.replace (pattern selah) polls fun o => Block.oppositeLine (o.group 0)

/-- How often a stage polls the token if it is never raised: once for each match. -/
def pollCount (s : Stage) (t : StyledText) : Nat :=
  (s.pattern.matches t.text).length

end Stage

/-- What a render did: its text, the stages that completed, in order, and the one that saw
the token raised. -/
structure Report where
  text : StyledText
  completed : List Stage
  cancelled : Option Stage

/-- Runs the stages when the token has given `asked` answers. With `stopAfter`, a stage of that
name raises the token once it has completed. -/
def renderWith (config : RenderConfig) (stopAfter : Option Stage) (polls : Polls) (asked : Nat) :
    List Stage → StyledText → Report
  | [], t => ⟨t, [], none⟩
  | s :: rest, t =>
    if polls asked then ⟨t, [], some s⟩
    else
      match s.run config (polls.after (asked + 1)) t with
      | none => ⟨t, [], some s⟩
      | some out =>
        let polls := if stopAfter = some s then .always true else polls
        let report := renderWith config stopAfter polls (asked + 1 + s.pollCount t) rest out
        { report with completed := s :: report.completed }

def render (config : RenderConfig) (stages : List Stage) (polls : Polls) (t : StyledText) :
    Report :=
  renderWith config none polls 0 stages t

/-- The content of a major section heading that opens the text; else empty. -/
def leadingHeading (t : StyledText) : StyledText :=
  match (Stage.pattern .majorSectionHeading).find? t.text with
  | some m =>
    if m.start = 0 then
      match m.group? 0 with
      | some s => t.extract s
      | none => ∅
    else ∅
  | none => ∅

end Passage
