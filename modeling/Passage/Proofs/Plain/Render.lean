import Passage.Proofs.Layout.Blanks
import Passage.Proofs.Plain.Stages

/-! The render of plain blocks. The stages of blanks shrink the blanks in their content, a major
heading that opens the text may be left out, and then each stage lays out its own blocks
(`render_plain`). -/

namespace Passage.Plain

open Document (tagStages)

variable {ran : List Stage} {config : RenderConfig} {b : Block} {bs : List Block}

/-! ## Blanks -/

def Block.shrunk (b : Block) : Block where
  kind := b.kind
  content := Text.shrink b.content
  ne_nil := mt Text.shrink_eq_nil_iff.mp b.ne_nil
  noTag := mt (Text.mem_shrink_of_not_blank rfl).mp b.noTag
  head := Text.stops_shrink_iff.mpr b.head

/-- A printed block begins and ends with a character that is no blank. -/
theorem Block.exists_source (b : Block) : ∃ cs, b.source = '<' :: cs ++ ['>'] := by
  refine ⟨"para style=\"".toList ++ b.kind.style ++ "\">".toList ++ b.content ++
    "</para".toList, ?_⟩
  unfold source Document.para
  simp

theorem Block.shrink_source (b : Block) (rest : List Char) :
    Text.shrink (b.source ++ rest) = b.shrunk.source ++ Text.shrink rest :=
  Document.shrink_para b.kind.styledAs.noBlank b.content rest

theorem shrink_source (bs : List Block) :
    Text.shrink (source bs) = source (bs.map Block.shrunk) := by
  induction bs with
  | nil => rfl
  | cons b bs ih =>
    rw [List.map_cons, source, source, List.flatMap_cons, List.flatMap_cons, b.shrink_source]
    exact congrArg (b.shrunk.source ++ ·) ih

theorem trimBoth_source (bs : List Block) : Text.trimBoth Text.isBlank (source bs) = source bs := by
  refine Text.trimBoth_eq_self (fun c hc => ?_) fun c hc => ?_
  · cases bs with
    | nil => cases hc
    | cons b bs =>
      obtain ⟨cs, hb⟩ := b.exists_source
      rw [source, List.flatMap_cons, hb] at hc
      cases hc
      rfl
  · rcases bs.eq_nil_or_concat with rfl | ⟨bs, b, rfl⟩
    · cases hc
    · obtain ⟨cs, hb⟩ := b.exists_source
      rw [source, List.concat_eq_append, List.flatMap_append, List.flatMap_singleton, hb,
        ← List.append_assoc, List.getLast?_concat] at hc
      cases hc
      rfl

/-! ## Major headings -/

/-- How many blocks are left out: a major heading that comes first, if it is suppressed. -/
def hidden (suppress : Bool) (bs : List Block) : Nat :=
  if suppress && bs.head?.any (·.kind.stage == .majorSectionHeading) then 1 else 0

theorem hidden_shrunk (suppress : Bool) (bs : List Block) :
    hidden suppress (bs.map Block.shrunk) = hidden suppress bs := by
  cases bs <;> rfl

/-- Where no other block is laid out, nothing depends on the block before. -/
theorem forms_majorSectionHeading (prev prev' : Option Kind) (bs : List Block) :
    forms [.majorSectionHeading] prev bs = forms [.majorSectionHeading] prev' bs := by
  cases bs with
  | nil => rfl
  | cons b bs =>
    have hform : b.form [.majorSectionHeading] prev bs =
        b.form [.majorSectionHeading] prev' bs := by
      unfold Block.form Block.laid
      cases b.kind <;> rfl
    rw [forms, forms, hform]

theorem Kind.eq_majorHeading {k : Kind} (h : k.stage = .majorSectionHeading) :
    k = .majorHeading := by
  cases k <;> first | rfl | cases h

theorem block_majorHeading (b : Block) :
    Tag.Block ['m', 's'] "<para style=\"ms\">".toList b.content where
  opening := by
    have hspace : Tag.SomeBlanks [' '] :=
      ⟨List.cons_ne_nil _ _, by simp [Tag.Blanks, Text.isBlank]⟩
    have hnone : Tag.Blanks [] := List.forall_mem_nil _
    exact .mk hspace hnone hnone
  stops := b.head
  first := .of_beforeLiteral? (Tag.beforeLiteral?_append (nowhere_closing b) (by decide) [])

section
variable (hb : b.kind = .majorHeading)
include hb

theorem Block.laid_of_majorHeading (prev : Option Kind) (rest : List Block) :
    b.laid prev rest = Passage.Block.majorHeading (.plain b.content) := by
  rw [laid, hb, StyledText.eq_iff_chars]
  simp [lead, trail, dress, Passage.Block.majorHeading, Passage.Block.heading]

theorem source_of_majorHeading (rest : List Char) : b.source ++ rest =
    "<para style=\"ms\">".toList ++ (b.content ++ (Tag.blockEnd ++ rest)) := by
  rw [Block.source, hb, Tag.blockEnd_eq]
  unfold Document.para Kind.style
  simp

end

theorem apply_majorSectionHeading_shown (config : RenderConfig) (bs : List Block) :
    Stage.majorSectionHeading.apply (config.suppressing false) (.plain (source bs)) =
      forms [.majorSectionHeading] none bs := by
  rw [← forms_nil none bs]
  exact apply_told (by decide) List.not_mem_nil rfl (.inl (by decide)) bs

theorem apply_majorSectionHeading_dropped (config : RenderConfig) (hb : b.kind = .majorHeading)
    (bs : List Block) :
    Stage.majorSectionHeading.apply (config.suppressing true) (.plain (source (b :: bs))) =
      forms [.majorSectionHeading] none bs := by
  obtain ⟨t, ht⟩ :=
    apply_majorSectionHeading_of_block config (block_majorHeading b) (source bs)
  have hsource : source (b :: bs) = b.source ++ source bs := List.flatMap_cons
  rw [← source_of_majorHeading hb, ← hsource] at ht
  have hlaid : b.form [.majorSectionHeading] none bs =
      Passage.Block.majorHeading (.plain b.content) := by
    rw [Block.form, if_pos (by simp [hb, Kind.stage]), Block.laid_of_majorHeading hb]
  have hrest : t = forms [.majorSectionHeading] (some b.kind) bs := by
    have hboth := (ht false).symm.trans (apply_majorSectionHeading_shown config (b :: bs))
    rw [forms, hlaid, if_neg Bool.false_ne_true, StyledText.eq_iff_chars,
      StyledText.chars_append, StyledText.chars_append] at hboth
    exact StyledText.eq_iff_chars.mpr (List.append_cancel_left hboth)
  rw [ht, if_pos rfl, StyledText.empty_append, hrest]
  exact forms_majorSectionHeading _ _ bs

theorem match?_majorHeading_eq_none (hb : b.kind.stage ≠ .majorSectionHeading) (bs : List Block) :
    (Tag.Pattern.para ['m', 's']).match? true (source (b :: bs)) = none := by
  have hquiet := Document.quiet_para (s := .majorSectionHeading) (by decide) b.kind.styledAs
    hb (.of_noTag b.noTag) true
  obtain ⟨cs, hcs⟩ := b.exists_source
  rw [← Block.source, hcs] at hquiet
  rw [source, List.flatMap_cons, hcs]
  exact hquiet.1 (source bs)

theorem apply_majorSectionHeading (config : RenderConfig) (suppress : Bool) (bs : List Block) :
    Stage.majorSectionHeading.apply (config.suppressing suppress) (.plain (source bs)) =
      forms [.majorSectionHeading] none (bs.drop (hidden suppress bs)) := by
  have hshown := apply_majorSectionHeading_shown config bs
  cases bs with
  | nil =>
    have hnone : (Tag.Pattern.para ['m', 's']).match? true [] = none := rfl
    rw [List.drop_nil]
    exact (apply_majorSectionHeading_of_none config hnone suppress).trans hshown
  | cons b bs =>
    by_cases hb : b.kind.stage = .majorSectionHeading
    · cases suppress with
      | false => exact hshown
      | true =>
        have hhidden : hidden true (b :: bs) = 1 := by
          simp [hidden, hb]
        rw [apply_majorSectionHeading_dropped config (Kind.eq_majorHeading hb), hhidden]
        rfl
    · have hhidden : hidden suppress (b :: bs) = 0 := by
        simp [hidden, hb]
      have hnone := match?_majorHeading_eq_none hb bs
      rw [apply_majorSectionHeading_of_none config hnone, hhidden]
      exact hshown

/-! ## The later stages -/

def layout (prev : Option Kind) : List Block → StyledText
  | [] => ∅
  | b :: rest => b.laid prev rest ++ layout (some b.kind) rest

theorem forms_eq_layout (h : ∀ k : Kind, k.stage ∈ ran) (prev : Option Kind) (bs : List Block) :
    forms ran prev bs = layout prev bs := by
  induction bs generalizing prev with
  | nil => rfl
  | cons b bs ih => rw [forms, layout, ih, Block.form, if_pos (h b.kind)]

/-- Plain blocks have no verses, and where none are expected none are missing. -/
theorem apply_verse (h : config.expected = .unconstrained) (bs : List Block) :
    Stage.verse.apply config (forms ran none bs) = forms ran none bs := by
  have hquiet : Tag.Pattern.verse.Quiet (forms ran none bs).text :=
    quiet_forms (s := .verse) (by decide)
      (fun b _ => by cases b.kind <;> exact Stage.noConfusion) none
  rw [Stage.apply_verse_of_quiet config hquiet, labelsBefore_of_unconstrained h,
    StyledText.empty_append]

theorem not_mem_of_isOpen (k : Kind) (hk : k.isOpen = true) :
    k.stage ∉ [Stage.majorSectionHeading, .sectionHeading] := by
  cases k <;> simp [Kind.stage, Kind.isOpen] at hk ⊢

theorem openLeft_blankLine :
    OpenLeft [.majorSectionHeading, .sectionHeading, .paragraph, .blankLine] := by
  intro k
  cases k <;> simp [Kind.stage, Kind.isOpen]

theorem afterStages_laterStages (h : config.expected = .unconstrained)
    (hsuppress : config.suppressLeadingHeading = false) (bs : List Block) :
    afterStages config (forms [.majorSectionHeading] none bs) laterStages = layout none bs := by
  simp only [laterStages, afterStages]
  -- each step says which stages have run, so the side conditions wait for it in `by`
  rw [apply_told (s := .sectionHeading) (by decide) (by decide) hsuppress (.inl (by decide)),
    apply_told (s := .paragraph) (by decide) (by decide) hsuppress
      (.inr (by exact not_mem_of_isOpen)),
    apply_told (s := .blankLine) (by decide) (by decide) hsuppress (.inl (by decide)),
    apply_poeticLine (by exact openLeft_blankLine) (by decide),
    apply_told (s := .rightAlignedPoeticLine) (by decide) (by decide) hsuppress (.inl (by decide)),
    apply_verse h,
    apply_told (s := .note) (by decide) (by decide) hsuppress (.inl (by decide)),
    apply_told (s := .chapterLabel) (by decide) (by decide) hsuppress (.inl (by decide)),
    apply_told (s := .selah) (by decide) (by decide) hsuppress (.inl (by decide))]
  exact forms_eq_layout (fun k => by cases k <;> simp [Kind.stage]) none bs

/-- **Plain blocks are rendered one by one.** -/
theorem render_plain (h : config.expected = .unconstrained) (bs : List Block) :
    render config Stage.all (.always false) (.plain (source bs)) =
      ⟨layout none ((bs.drop (hidden config.suppressLeadingHeading bs)).map Block.shrunk),
        Stage.all, none⟩ := by
  have hall : Stage.all =
      [.trim, .lineBreaks, .whitespace] ++ (.majorSectionHeading :: laterStages) := rfl
  have hconfig : (config.suppressing false).expected = .unconstrained := h
  have hlater := afterStages_laterStages hconfig rfl
    ((bs.map Block.shrunk).drop (hidden config.suppressLeadingHeading (bs.map Block.shrunk)))
  have hsame : config.suppressing config.suppressLeadingHeading = config := rfl
  rw [← apply_majorSectionHeading config, afterStages_suppressing (by decide), hidden_shrunk,
    ← List.map_drop, hsame] at hlater
  rw [render_always, hall, afterStages_append, Spacing.afterStages_unstyled _ (fun _ => Iff.rfl),
    trimBoth_source, shrink_source, afterStages, hlater]

end Passage.Plain
