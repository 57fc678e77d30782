import Passage.Proofs.Render.Weave
import Passage.Render.Report

/-! Stages that run to their end. What a stage gives does not depend on the polls unless one of
them is raised, and then it gives nothing (`Stage.run_eq`). All stages but the verse stage are a
rule without state for the tags of their pattern. -/

namespace Passage

def verseOutput (config : RenderConfig) (t : StyledText) : StyledText :=
  let out := t.rewritten .verse (verseAt config) ∅
  if config.renderVerses then
    missingLabels config
      (answers t (verseAt config) ∅ (Tag.Pattern.verse.matches t.text)).2 ++ out
  else out

theorem versePass_eq (config : RenderConfig) (polls : Polls) (t : StyledText) :
    versePass config polls t =
      if polls.Calm 0 (Tag.Pattern.verse.matches t.text).length then some (verseOutput config t)
      else none := by
  unfold versePass
  by_cases h : polls.Calm 0 (Tag.Pattern.verse.matches t.text).length
  · have hs := t.replaceWith_state (verseAt config) ∅ h
    simp only [t.replaceWith_eq, if_pos h, hs, Option.map_some]
    rfl
  · simp only [t.replaceWith_eq, if_neg h, Option.map_none]

namespace Stage

/-- What a stage puts in the place of a tag. The verse stage has no such rule: its answer to a
tag depends on the tags before. -/
def rule (config : RenderConfig) (t : StyledText) : Stage → Occurrence → StyledText
  | trim | verse => fun _ => ∅
  | lineBreaks | whitespace => fun _ => .plain [' ']
  | majorSectionHeading => Block.majorHeadingAt config.suppressLeadingHeading
  | sectionHeading => fun o => Block.heading (o.group 0)
  | paragraph => Block.paragraphAt
  | blankLine => fun _ => Block.blankLine
  | poeticLine => Poetry.lineAt t.text
  | rightAlignedPoeticLine | selah => fun o => Block.oppositeLine (o.group 0)
  | note => noteAt
  | chapterLabel => fun o => Block.chapterLabel (o.group 0)

/-- What a stage makes of a text if the token is never raised. -/
def apply (config : RenderConfig) (t : StyledText) (s : Stage) : StyledText :=
  (s.run config (.always false) t).getD ∅

theorem run_eq_replace {s : Stage} (h : s ≠ verse) (config : RenderConfig) (polls : Polls)
    (t : StyledText) : s.run config polls t = t.replace s.pattern polls (s.rule config t) := by
  cases s <;> first | rfl | exact absurd rfl h

theorem apply_verse (config : RenderConfig) (t : StyledText) :
    verse.apply config t = verseOutput config t := by
  rw [apply, run, versePass_eq, if_pos (Polls.calm_always 0 _), Option.getD_some]

theorem apply_eq_replaced {s : Stage} (h : s ≠ verse) (config : RenderConfig) (t : StyledText) :
    s.apply config t = t.replaced s.pattern (s.rule config t) := by
  rw [apply, run_eq_replace h, t.replace_eq, if_pos (Polls.calm_always 0 _), Option.getD_some]

/-- A stage gives all of its output, or nothing if the token is raised before one of its
matches. -/
theorem run_eq (config : RenderConfig) (polls : Polls) (t : StyledText) (s : Stage) :
    s.run config polls t =
      if polls.Calm 0 (s.pollCount t) then some (s.apply config t) else none := by
  by_cases h : s = verse
  · subst h
    rw [apply_verse]
    exact versePass_eq config polls t
  · rw [apply_eq_replaced h, run_eq_replace h, t.replace_eq, pollCount]

theorem run_always (config : RenderConfig) (t : StyledText) (s : Stage) :
    s.run config (.always false) t = some (s.apply config t) := by
  rw [run_eq, if_pos (Polls.calm_always 0 _)]

/-- A run that is not cancelled gives what the stage makes of the text. -/
theorem eq_apply_of_run {s : Stage} {config : RenderConfig} {polls : Polls}
    {t out : StyledText} (h : s.run config polls t = some out) : out = s.apply config t := by
  rw [run_eq] at h
  split at h
  · exact (Option.some.inj h).symm
  · cases h

end Stage

/-- What a list of stages makes of a text, one after the other, if the token is never raised. -/
def afterStages (config : RenderConfig) (t : StyledText) : List Stage → StyledText
  | [] => t
  | s :: rest => afterStages config (s.apply config t) rest

theorem foldlM_run_always (config : RenderConfig) (t : StyledText) (stages : List Stage) :
    stages.foldlM (fun t s => s.run config (.always false) t) t =
      some (afterStages config t stages) := by
  induction stages generalizing t with
  | nil => rfl
  | cons s rest ih =>
    rw [List.foldlM_cons, s.run_always]
    exact ih (s.apply config t)

theorem afterStages_append (config : RenderConfig) (t : StyledText) (front back : List Stage) :
    afterStages config t (front ++ back) =
      afterStages config (afterStages config t front) back := by
  induction front generalizing t with
  | nil => rfl
  | cons s front ih => exact ih (s.apply config t)

/-- What every stage of a list keeps, the list keeps. -/
theorem afterStages_induction {config : RenderConfig} {stages : List Stage}
    {P : StyledText → Prop} (step : ∀ s ∈ stages, ∀ t, P t → P (s.apply config t))
    {t : StyledText} (h : P t) : P (afterStages config t stages) := by
  induction stages generalizing t with
  | nil => exact h
  | cons s rest ih =>
    exact ih (fun s hs => step s (List.mem_cons_of_mem _ hs)) (step s List.mem_cons_self t h)

end Passage
