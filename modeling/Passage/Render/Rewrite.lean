import Passage.Render.Cancel
import Passage.Styled.Ranged
import Passage.Tag.Scan

/-! The scan-and-replace loop over held text. It goes through the matches with the byte at which
the last one ended and with what has been put together so far; the gaps between the matches are
slices of the text by bytes. A slice that has to cut inside a character would end the loop without
an outcome. -/

namespace Passage

inductive RewriteOutcome
  | completed (t : RangedText)
  | cancelled
deriving DecidableEq

namespace RangedText

variable {σ : Type}

/-- The loop over the matches that are left: `i` polls have been answered, the rule is in state
`s`, the match before ended at byte `last`, and `out` is put together. -/
def rewriteFrom? (t : RangedText) (polls : Polls) (rule : σ → Tag.Match → StyledText × σ) (i : Nat)
    (s : σ) (last : Nat) (out : RangedText) : List Tag.Match → Option (σ × RewriteOutcome)
  | [] => do
    let gap ← t.slice? ⟨last, Text.byteLength t.text⟩
    return (s, .completed (← out.append? gap))
  | m :: ms =>
    if polls i then some (s, .cancelled)
    else do
      let place := Text.byteSpan t.text m.span
      let out ← out.append? (← t.slice? ⟨last, place.start⟩)
      let (u, s) := rule s m
      t.rewriteFrom? polls rule (i + 1) s place.stop (← out.append? u.ranged) ms

/-- Puts the rule's answer in the place of each match, from state `s`. -/
def rewrite? (t : RangedText) (p : Tag.Pattern) (polls : Polls)
    (rule : σ → Tag.Match → StyledText × σ) (s : σ) : Option (σ × RewriteOutcome) :=
  t.rewriteFrom? polls rule 0 s 0 ∅ (p.matches t.text)

end RangedText

end Passage
