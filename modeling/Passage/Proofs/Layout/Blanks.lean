import Passage.Proofs.Layout.Answers
import Passage.Proofs.Render.Normalize
import Passage.Proofs.Tag.Opening
import Passage.Proofs.Text.Trim

/-! The blanks of a printed document. They are single spaces, and the text begins and ends with a
tag; so the stages that trim and squeeze blanks find nothing to change. -/

namespace Passage.Document

namespace Tidy

variable {x y : List Char}

theorem of_noBlank (h : ∀ c ∈ x, Text.isBlank c = false) : Tidy x where
  spaces c hc hb := by
    rw [h c hc] at hb
    cases hb
  single := by
    induction x with
    | nil => exact .nil
    | cons c x ih =>
      obtain ⟨hc, hx⟩ := List.forall_mem_cons.mp h
      refine List.isChain_cons.mpr ⟨fun d _ => ?_, ih hx⟩
      rintro ⟨rfl, -⟩
      cases hc
  head hs := by
    have := h ' ' (List.mem_of_mem_head? hs)
    cases this

/-- No blank comes first, so none is doubled where two texts meet. -/
theorem append (hx : Tidy x) (hy : Tidy y) : Tidy (x ++ y) where
  spaces c hc hb := by
    rcases List.mem_append.mp hc with hc | hc
    · exact hx.spaces c hc hb
    · exact hy.spaces c hc hb
  single := by
    refine List.isChain_append.mpr ⟨hx.single, hy.single, fun c _ d hd => ?_⟩
    rintro ⟨-, rfl⟩
    exact hy.head hd
  head := by
    cases x with
    | nil => exact hy.head
    | cons c x => exact hx.head

theorem flatMap {α : Type} {l : List α} {f : α → List Char} (h : ∀ a ∈ l, Tidy (f a)) :
    Tidy (l.flatMap f) := by
  induction l with
  | nil => exact of_noBlank (by simp)
  | cons a l ih =>
    obtain ⟨ha, hl⟩ := List.forall_mem_cons.mp h
    exact ha.append (ih hl)

end Tidy

/-! ## Printed documents -/

theorem tidy_para {style body : List Char} (hs : ∀ c ∈ style, Text.isBlank c = false)
    (hb : Tidy body) : Tidy (para style body) := by
  have hopening : Tidy "<para style=\"".toList := by decide
  have hend : Tidy "\">".toList := by decide
  have hclosing : Tidy closing := by decide
  exact (((hopening.append (.of_noBlank hs)).append hend).append hb).append hclosing

theorem tidy_source (e : Element) : Tidy e.source := by
  have hs := e.styledAs.noBlank
  cases e with
  | blankLine =>
    have hline : Tidy "<para style=\"b\"/>".toList := by decide
    exact hline
  | majorHeading t | heading t | oppositeLine t | chapterLabel t => exact tidy_para hs t.tidy
  | paragraph c | poeticLine _ _ c => exact tidy_para hs c.tidy

theorem tidy_document (doc : List Element) : Tidy (source doc) :=
  Tidy.flatMap fun e _ => tidy_source e

theorem getLast?_document (doc : List Element) : ∀ c ∈ (source doc).getLast?, c = '>' := by
  rcases doc.eq_nil_or_concat with rfl | ⟨doc, e, rfl⟩
  · intro c hc
    cases hc
  · simp [source, List.getLast?_append, getLast?_source]

/-! ## Blocks with any blanks -/

/-- The blanks in the content of a block are shrunk, and its tags stand. -/
theorem shrink_para {style : List Char} (hs : ∀ c ∈ style, Text.isBlank c = false)
    (body rest : List Char) :
    Text.shrink (para style body ++ rest) = para style (Text.shrink body) ++ Text.shrink rest := by
  have hsplit (body rest : List Char) : para style body ++ rest =
      "<para".toList ++ (' ' :: (Tag.styleText style ++ (['>'] ++
        (body ++ (Tag.blockEnd ++ rest))))) := by
    unfold para Tag.styleText
    rw [Tag.blockEnd_eq]
    simp
  have hstops : Tag.Stops Text.isBlank (Tag.styleText style ++ (['>'] ++
      (body ++ (Tag.blockEnd ++ rest)))) := Tag.stops_cons (by decide) _
  rw [hsplit, hsplit, Text.shrink_word_append Tag.noBlank_name,
    Text.shrink_cons_of_blank rfl hstops, Text.shrink_word_append (Tag.noBlank_styleText hs),
    Text.shrink_word_append Tag.noBlank_openingEnd, Text.shrink_append _ (Tag.stops_blockEnd rest),
    Text.shrink_word_append Tag.noBlank_blockEnd]

/-- A block starts and ends with a tag. -/
theorem trimBoth_para (style body : List Char) :
    Text.trimBoth Text.isBlank (para style body) = para style body := by
  refine Text.trimBoth_eq_self (by rintro _ ⟨⟩; rfl) fun c hc => ?_
  rw [para_eq, List.getLast?_append] at hc
  cases hc
  rfl

/-! ## The passes -/

/-- The stages that trim and squeeze blanks, which come before all stages of blocks. -/
def blankStages : List Stage :=
  [.trim, .lineBreaks, .whitespace]

/-- A stretch of blanks in a printed document is one space. -/
theorem squeezed_document (doc : List Element) :
    Spacing.Squeezed (StyledText.plain (source doc)).chars := by
  have htidy := tidy_document doc
  rw [StyledText.chars_plain]
  constructor
  · refine List.forall_mem_map.mpr fun c hc hb => ?_
    rw [htidy.spaces c hc hb]
    rfl
  · rw [List.isChain_map]
    refine htidy.single.imp_of_mem_imp fun c d hc hd hne hb => hne ?_
    exact ⟨htidy.spaces c hc hb.1, htidy.spaces d hd hb.2⟩

/-- A printed document starts and ends with a tag. -/
theorem trimmed_document (doc : List Element) :
    Spacing.Trimmed (StyledText.plain (source doc)).chars := by
  have htidy := tidy_document doc
  rw [StyledText.chars_plain]
  constructor
  · intro hb
    rw [List.head?_map, Option.map_map, Option.map_eq_some_iff] at hb
    obtain ⟨c, hc, hcb⟩ := hb
    exact htidy.head (htidy.spaces c (List.mem_of_mem_head? hc) hcb ▸ hc)
  · intro hb
    rw [List.getLast?_map, Option.map_map, Option.map_eq_some_iff] at hb
    obtain ⟨c, hc, hcb⟩ := hb
    rw [getLast?_document doc c hc] at hcb
    cases hcb

theorem apply_blanks {s : Stage} (hs : s ∈ blankStages) (config : RenderConfig)
    (doc : List Element) : s.apply config (.plain (source doc)) = .plain (source doc) :=
  Spacing.apply_of_tidy hs (squeezed_document doc) (trimmed_document doc)

end Passage.Document
