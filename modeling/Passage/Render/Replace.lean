import Passage.Render.Cancel
import Passage.Styled.Text
import Passage.Tag.Scan

/-! The scan-and-replace pass. The matches of a pattern cut a styled text into
what lies before each match, the match, and what lies after the last one; the pass puts a
rule's answer in the place of each match and keeps the rest with its styles. It polls
the cancel token before each match and, once that is raised, gives up the whole pass: a
text is replaced in full or not at all. -/

namespace Passage

/-- A match with the styled text it covers. -/
structure Occurrence where
  found : Tag.Match
  tag : StyledText

namespace Occurrence

/-- The styled text of a captured part; empty where there is none. -/
def group (o : Occurrence) (i : Nat) : StyledText :=
  match o.found.extent.groups[i]? with
  | some s => o.tag.extract s
  | none => ∅

end Occurrence

/-- A match and the runs between it and the match before. -/
structure Segment where
  gap : List Run
  occurrence : Occurrence

/-- Cuts runs that start `offset` characters into the text at the matches: a segment for
each match, and the runs after the last one. -/
def segmentsFrom (offset : Nat) (rs : List Run) : List Tag.Match → List Segment × List Run
  | [] => ([], rs)
  | m :: ms =>
    let (gap, rest) := Run.cut (m.start - offset) rs
    let (tag, rest) := Run.cut m.extent.length rest
    let (segments, last) := segmentsFrom m.span.stop rest ms
    (⟨gap, m, StyledText.ofRuns tag⟩ :: segments, last)

/-- How a pass ends: the state of its rule, and the text unless it was cancelled. -/
structure Pass (σ : Type) where
  state : σ
  output : Option (List Run)

/-- Replaces segment by segment; `i` polls have been answered. -/
def replaceFrom {σ : Type} (polls : Polls) (rule : σ → Occurrence → StyledText × σ)
    (i : Nat) (s : σ) (last : List Run) : List Segment → Pass σ
  | [] => ⟨s, some last⟩
  | seg :: rest =>
    if polls i then ⟨s, none⟩
    else
      let (text, s) := rule s seg.occurrence
      let pass := replaceFrom polls rule (i + 1) s last rest
      ⟨pass.state, pass.output.map fun rs => seg.gap ++ text.runs ++ rs⟩

/-- Puts the rule's answer in the place of each match, from state `s`. -/
def StyledText.replaceWith {σ : Type} (t : StyledText) (p : Tag.Pattern) (polls : Polls)
    (rule : σ → Occurrence → StyledText × σ) (s : σ) : σ × Option StyledText :=
  let (segments, last) := segmentsFrom 0 t.runs (p.matches t.text)
  let pass := replaceFrom polls rule 0 s last segments
  (pass.state, pass.output.map ofRuns)

def StyledText.replace (t : StyledText) (p : Tag.Pattern) (polls : Polls)
    (rule : Occurrence → StyledText) : Option StyledText :=
  (t.replaceWith p polls (fun _ o => (rule o, ())) ()).2

end Passage
