import Passage.Proofs.Layout.Blanks
import Passage.Proofs.Layout.Poetry
import Passage.Proofs.Layout.Verses
import Passage.Proofs.Render.Cancellation

/-! The render of a printed document. Blanks are left as they are, and then each stage lays out
its own blocks or the verse tags; no stage depends on the stages after it, and what is left after
the last one is the layout of the document. -/

namespace Passage.Document

theorem afterStages_blankStages (config : RenderConfig) (doc : List Element) :
    afterStages config (.plain (source doc)) blankStages = .plain (source doc) := by
  refine afterStages_induction (P := (· = .plain (source doc))) ?_ rfl
  rintro s hs t rfl
  exact apply_blanks hs config doc

theorem openLeft_blankLine :
    OpenLeft [.majorSectionHeading, .sectionHeading, .paragraph, .blankLine] := by
  intro e
  cases e <;> simp [Element.stage, Element.isOpen]

theorem labelsLeft_verse :
    LabelsLeft [.majorSectionHeading, .sectionHeading, .paragraph, .blankLine, .poeticLine,
      .rightAlignedPoeticLine] := by
  intro e
  cases e <;> simp [Element.stage]

theorem not_mem_of_isOpen (e : Element) (he : e.isOpen = true) :
    e.stage ∉ [Stage.majorSectionHeading, .sectionHeading] := by
  cases e <;> simp [Element.stage, Element.isOpen] at he ⊢

/-- The stages from the major headings on, one after the other. -/
theorem afterStages_tagStages (suppress breaks : Bool) (doc : List Element) :
    afterStages (config suppress breaks) (.plain (source doc)) tagStages =
      layout suppress breaks doc := by
  rw [← spread_form_of_not_mem breaks (fun _ => List.not_mem_nil) [] doc]
  simp only [tagStages, afterStages]
  -- each step says which stages have run, so the side conditions wait for it in `by`
  rw [apply_majorSectionHeading (fun _ _ => List.not_mem_nil),
    apply_sectionHeading _ _ (by decide),
    apply_paragraph _ _ (by exact not_mem_of_isOpen) (by decide) (by decide),
    apply_blankLine _ _ (by decide),
    apply_poeticLine _ _ (by exact openLeft_blankLine) (by decide) (by decide),
    apply_rightAlignedPoeticLine _ _ (by decide),
    apply_verse (by exact labelsLeft_verse) (by decide),
    apply_inline _ _ (.inl rfl) (by decide),
    apply_chapterLabel _ _ (by decide),
    apply_inline _ _ (.inr rfl) (by decide)]
  exact spread_congr fun front e r _ => form_all breaks (by decide) e.stage_mem_tagStages _ r

/-- **A printed document is rendered block by block.** Whatever blocks follow one another, the
stages all complete, and what they make of the printed blocks is the layout of the document, in
which a block's line breaks, indent and verse numbers are told from the blocks around it. -/
theorem render_source (suppress breaks : Bool) (doc : List Element) :
    render (config suppress breaks) Stage.all (.always false) (.plain (source doc)) =
      ⟨layout suppress breaks doc, Stage.all, none⟩ := by
  have hall : Stage.all = blankStages ++ tagStages := rfl
  rw [render_always, hall, afterStages_append, afterStages_blankStages, afterStages_tagStages]

/-- A label, a line of poetry, a heading, and what stands on the trailing edge after it. -/
example :
    (layout false false
      [.chapterLabel ⟨['A'], by decide, by decide, by decide⟩,
        .poeticLine 1 (by decide)
          ⟨[.verse 1 (by decide), .text ['b'] (by decide) (by decide)], by decide,
            by decide⟩,
        .heading ⟨['C'], by decide, by decide, by decide⟩,
        .oppositeLine ⟨['d'], by decide, by decide, by decide⟩]).text =
      "A\n  1 b\nC\n\nd".toList := by
  decide

end Passage.Document
