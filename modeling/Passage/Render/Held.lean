import Passage.Render.Cutting
import Passage.Render.Report
import Passage.Render.Rewrite

/-! The render over held text. Each stage finds the bytes of its matches and their parts, cuts the
text there, and puts the pieces together; each of its cuts may fail. A note or verse tag that
cannot be read is cut out of the text as it stands, and a poetic line cuts the text before and
after it, and two bytes off its indent where it hangs out. -/

namespace Passage

def NoteMarker.held (n : NoteMarker) : RangedText :=
  .styled n.glyph [.italic, .clickable n.region]

/-- A verse label and a space, as they are held. -/
def VerseMarker.held (m : VerseMarker) (tappable : Bool) : RangedText :=
  let styles := if tappable then [.bold, .clickable m.region] else [.bold]
  (RangedText.styled m.label styles).push [' '] ∅

namespace Held

variable {σ : Type}

/-! ## The loop over the matches -/

/-- The loop over the matches that are left: `i` polls have been answered, the rule is in state
`s`, the match before ended at byte `last`, and `out` is put together. -/
def rewriteFrom (t : RangedText) (polls : Polls) (rule : σ → Tag.Match → Cutting (RangedText × σ))
    (i : Nat) (s : σ) (last : Nat) (out : RangedText) :
    List Tag.Match → Cutting (σ × RewriteOutcome)
  | [] => do
    let out ← out.append (← t.cut ⟨last, Text.byteLength t.text⟩)
    return (s, .completed out)
  | m :: ms =>
    if polls i then return (s, .cancelled)
    else do
      let place ← Cutting.place t.text m.span
      let out ← out.append (← t.cut ⟨last, place.start⟩)
      let (u, s) ← rule s m
      let out ← out.append u
      rewriteFrom t polls rule (i + 1) s place.stop out ms

/-- Puts the rule's answer in the place of each match. -/
def rewrite (t : RangedText) (p : Tag.Pattern) (polls : Polls)
    (rule : Tag.Match → Cutting RangedText) : Cutting RewriteOutcome := do
  let stateless (_ : Unit) (m : Tag.Match) := do return (← rule m, ())
  let (_, outcome) ← rewriteFrom t polls stateless 0 () 0 ∅ (p.matches t.text)
  return outcome

/-! ## What the block tags become -/

def heading (t : RangedText) (m : Tag.Match) : Cutting RangedText := do
  return ((← t.group m 0).addStyles Block.headingStyles).push ['\n'] ∅

/-- A major heading; with `suppress` one that opens the text leaves nothing. -/
def majorHeading (suppress : Bool) (t : RangedText) (m : Tag.Match) : Cutting RangedText := do
  let place ← Cutting.place t.text m.span
  if suppress && place.start == 0 then return ∅
  else do
    let content ← (← t.group m 0).mapMarks Text.upper
    return (content.addStyles Block.headingStyles).push ['\n'] ∅

/-- An indented paragraph; it starts a line unless it opens the text. -/
def paragraph (t : RangedText) (m : Tag.Match) : Cutting RangedText := do
  let place ← Cutting.place t.text m.span
  let lead : RangedText := if 0 < place.start then .plain ['\n'] else ∅
  let out ← (lead.push Block.indent ∅).append (← t.group m 0)
  return out.push ['\n'] ∅

def chapterLabel (t : RangedText) (m : Tag.Match) : Cutting RangedText := do
  return (← t.group m 0).addStyles [.bold]

def oppositeLine (t : RangedText) (m : Tag.Match) : Cutting RangedText := do
  (RangedText.plain ['\n']).append ((← t.group m 0).addStyles Block.oppositeStyles)

/-- The indent of a level, less two bytes if the line opens with a verse tag. -/
def indentOf (level : Nat) (content : List Char) : Cutting (List Char) :=
  let indent := (List.replicate level Block.indent).flatten
  if 0 < level && Poetry.opensWithVerse content then Cutting.dropLastBytes 2 indent
  else return indent

/-- A poetic line. It breaks off from the text before and after it where that is needed. -/
def poeticLine (t : RangedText) (m : Tag.Match) : Cutting RangedText := do
  let level := Poetry.level (← t.groupChars m 0)
  let content := (← t.group m 1).addStyles [.normal]
  let indent ← indentOf level content.text
  let place ← Cutting.place t.text m.span
  let before ← Cutting.bytes t.text ⟨0, place.start⟩
  let lead : RangedText := if Poetry.needsLeadingBreak before then .plain ['\n'] else ∅
  let out ← (lead.push indent ∅).append content
  let after ← Cutting.bytes t.text ⟨place.stop, Text.byteLength t.text⟩
  return if Poetry.needsTrailingBreak after then out.push ['\n'] ∅ else out

/-! ## What the inline tags become -/

/-- A note's glyph; the tag as it stands if it cannot be read. -/
def note (t : RangedText) (m : Tag.Match) : Cutting RangedText := do
  let attributes ← t.groupChars m 0
  let body ← t.groupChars m 1
  match NoteMarker.parse attributes body with
  | .ok note => return note.held
  | .error _ => t.raw m

/-- A verse tag in its turn; `found` holds the numbers seen so far. -/
def verse (config : RenderConfig) (t : RangedText) (found : VerseSet) (m : Tag.Match) :
    Cutting (RangedText × VerseSet) :=
  if config.renderVerses then do
    match VerseMarker.parse (← t.groupChars m 0) with
    | .error _ => return (← t.raw m, found)
    | .ok marker =>
      match found.insert? marker with
      | none => return (∅, found)
      | some found =>
        if config.expected.admits marker then do
          let lead : RangedText := if config.breakBeforeVerses then .plain ['\n'] else ∅
          return (← lead.append (marker.held config.verseHandler), found)
        else return (∅, found)
  else return (∅, found)

/-- The labels of verse numbers, after what is put together. -/
def labels (config : RenderConfig) (out : RangedText) : List Nat → Cutting RangedText
  | [] => return out
  | n :: rest => do
    labels config (← out.append ((VerseMarker.single n).held config.verseHandler)) rest

/-- The verse pass: the tags, and before all text the labels that were missing. -/
def versePass (config : RenderConfig) (t : RangedText) (polls : Polls) : Cutting RewriteOutcome := do
  let (found, outcome) ← rewriteFrom t polls (verse config t) 0 ∅ 0 ∅ (Tag.Pattern.verse.matches t.text)
  match outcome with
  | .cancelled => return .cancelled
  | .completed out =>
    let missing := config.expected.missing found
    if config.renderVerses && !missing.isEmpty then do
      let front ← labels config ∅ missing
      return .completed (← front.append out)
    else return .completed out

/-! ## The stages and the render -/

def run (config : RenderConfig) (polls : Polls) (t : RangedText) (s : Stage) :
    Cutting RewriteOutcome :=
  match s with
  | .trim => rewrite t s.pattern polls fun _ => return ∅
  | .lineBreaks | .whitespace => rewrite t s.pattern polls fun _ => return .plain [' ']
  | .majorSectionHeading =>
    rewrite t s.pattern polls (majorHeading config.suppressLeadingHeading t)
  | .sectionHeading => rewrite t s.pattern polls (heading t)
  | .paragraph => rewrite t s.pattern polls (paragraph t)
  | .blankLine => rewrite t s.pattern polls fun _ => return .plain ['\n', '\n']
  | .poeticLine => rewrite t s.pattern polls (poeticLine t)
  | .rightAlignedPoeticLine | .selah => rewrite t s.pattern polls (oppositeLine t)
  | .verse => versePass config t polls
  | .note => rewrite t s.pattern polls (note t)
  | .chapterLabel => rewrite t s.pattern polls (chapterLabel t)

structure Report where
  text : RangedText
  completed : List Stage
  cancelled : Option Stage
deriving DecidableEq

/-- Runs the stages when the token has given `asked` answers. With `stopAfter`, a stage of that
name raises the token once it has completed. -/
def renderWith (config : RenderConfig) (stopAfter : Option Stage) (polls : Polls) (asked : Nat)
    (t : RangedText) : List Stage → Cutting Report
  | [] => return ⟨t, [], none⟩
  | s :: rest =>
    if polls asked then return ⟨t, [], some s⟩
    else do
      match ← run config (polls.after (asked + 1)) t s with
      | .cancelled => return ⟨t, [], some s⟩
      | .completed out =>
        let polls := if stopAfter = some s then .always true else polls
        let asked := asked + 1 + (s.pattern.matches t.text).length
        let report ← renderWith config stopAfter polls asked out rest
        return { report with completed := s :: report.completed }

def render (config : RenderConfig) (stages : List Stage) (polls : Polls) (t : RangedText) :
    Cutting Report :=
  renderWith config none polls 0 t stages

/-- The content of a major section heading that opens the text; else empty. -/
def leadingHeading (t : RangedText) : Cutting RangedText :=
  match (Stage.pattern .majorSectionHeading).find? t.text with
  | some m => do
    let place ← Cutting.place t.text m.span
    if place.start == 0 then t.group m 0 else return ∅
  | none => return ∅

end Held

end Passage
