import Passage.Proofs.Plain.Block
import Passage.Proofs.Render.Hoist

/-! The passes over plain blocks. A stage of blocks lays out the blocks of its kind and leaves the
others (`apply_forms`). What it answers to a block depends on the text around it. Until lines of
poetry are laid out, the text before a block ends in a line break if the block before has been laid
out and in a tag if it has not (`Ends`); so the answer is told from the kinds of the blocks around. -/

namespace Passage.Plain

open Document (tagStages)

variable {ran : List Stage} {s : Stage} {config : RenderConfig} {prev : Option Kind} {b : Block}
  {rest bs : List Block}

/-! ## One pass -/

/-- The text before a block, after a block of kind `prev`, as long as no open block is laid out. -/
def Ends (ran : List Stage) (prev : Option Kind) (front : List Char) : Prop :=
  (∀ k : Kind, k.isOpen = true → k.stage ∉ ran) →
    front.getLast? = prev.map fun k => if k.stage ∈ ran then '\n' else '>'

theorem ends_nil (ran : List Stage) : Ends ran none [] :=
  fun _ => rfl

theorem getLast?_form (hopen : ∀ k : Kind, k.isOpen = true → k.stage ∉ ran) (prev : Option Kind)
    (rest : List Block) (b : Block) :
    (b.form ran prev rest).text.getLast? = some (if b.kind.stage ∈ ran then '\n' else '>') := by
  unfold Block.form
  split
  · rename_i hran
    have htrail : trail rest b.kind = ['\n'] := by
      cases hk : b.kind with
      | poeticLine | oppositeLine => exact absurd hran (hopen _ (by rw [hk]; rfl))
      | _ => rfl
    rw [Block.text_laid, htrail, List.getLast?_concat]
  · rw [StyledText.text_plain, Block.source, Document.para_eq, List.getLast?_append]
    rfl

theorem ends_form (front : List Char) (prev : Option Kind) (rest : List Block) (b : Block) :
    Ends ran (some b.kind) (front ++ (b.form ran prev rest).text) := by
  intro hopen
  rw [List.getLast?_append, getLast?_form hopen]
  rfl

theorem Ends.eq_nil_iff {front : List Char} (h : Ends ran prev front)
    (hopen : ∀ k : Kind, k.isOpen = true → k.stage ∉ ran) : front = [] ↔ prev = none := by
  rw [← List.getLast?_eq_none_iff, h hopen, Option.map_eq_none_iff]

/-- The run lemma of a pass: if it lays out the blocks of its stage, each in its place, it makes one
form of the other. -/
theorem rewrites_forms (hs : s ∈ tagStages) (hran : s ∉ ran) {t front : StyledText}
    (hends : Ends ran prev front.text) (ht : front ++ forms ran prev bs = t)
    (own : ∀ (front : StyledText) (prev : Option Kind) (b : Block) (rest : List Block),
      Ends ran prev front.text → front ++ (.plain b.source ++ forms ran (some b.kind) rest) = t →
        b.kind.stage = s → ∃ x, s.pattern.Takes b.source x ∧
          s.rule config t ⟨⟨front.text.length, x⟩, .plain b.source⟩ = b.laid prev rest) :
    Rewrites s.pattern (fun _ o => (s.rule config t o, ())) front.text.length ()
      (forms ran prev bs).chars (forms (ran ++ [s]) prev bs).chars () := by
  induction bs generalizing front prev with
  | nil => exact .nil
  | cons b rest ih =>
    have hnext : Ends ran (some b.kind) (front ++ b.form ran prev rest).text := by
      rw [StyledText.text_append]
      exact ends_form front.text prev rest b
    have hlater := ih hnext ((StyledText.append_assoc _ _ _).trans ht)
    rw [StyledText.text_append, List.length_append, StyledText.length_text
      (b.form ran prev rest)] at hlater
    rw [forms, forms, StyledText.chars_append, StyledText.chars_append]
    refine Rewrites.append ?_ hlater
    by_cases hb : b.kind.stage = s
    · have hraw : b.form ran prev rest = .plain b.source := if_neg (hb ▸ hran)
      rw [forms, hraw] at ht
      obtain ⟨x, htakes, hrule⟩ := own front prev b rest hends ht hb
      rw [hraw, Block.form_append_of_eq hb]
      refine Rewrites.of_takes (e := x) ?_ ?_
      · rwa [← StyledText.text_eq_map_chars, StyledText.text_plain]
      · rw [StyledText.ofChars_chars, hrule]
    · rw [Block.form_append_of_ne hb]
      refine .of_quiet ?_
      rw [← StyledText.text_eq_map_chars]
      exact Block.quiet_form hs hb

/-- A pass that answers to the blocks of its stage with their layout. -/
theorem apply_forms (hs : s ∈ tagStages) (hv : s ≠ .verse) (hran : s ∉ ran) (config : RenderConfig)
    (bs : List Block)
    (own : ∀ (front : StyledText) (prev : Option Kind) (b : Block) (rest : List Block),
      Ends ran prev front.text →
        front ++ (.plain b.source ++ forms ran (some b.kind) rest) = forms ran none bs →
          b.kind.stage = s → ∃ x, s.pattern.Takes b.source x ∧
            s.rule config (forms ran none bs) ⟨⟨front.text.length, x⟩, .plain b.source⟩ =
              b.laid prev rest) :
    s.apply config (forms ran none bs) = forms (ran ++ [s]) none bs := by
  have hends : Ends ran none (∅ : StyledText).text := ends_nil ran
  have hpass := rewrites_forms hs hran hends (StyledText.empty_append (forms ran none bs)) own
  rw [Stage.apply_eq_of_passes hv hpass.passes, StyledText.ofChars_chars]

/-! ## Blocks that are told from their tags -/

theorem nowhere_closing (b : Block) : Tag.Nowhere (Text.dropLiteral? Document.closing) b.content :=
  Tag.Nowhere.of_not_mem b.noTag

theorem Block.takes (hb : b.kind.stage ≠ .poeticLine) (offset : Nat) :
    ∃ x, b.kind.stage.pattern.Takes b.source x ∧
      Occurrence.group ⟨⟨offset, x⟩, .plain b.source⟩ 0 = .plain b.content := by
  have hpattern : b.kind.stage.pattern = .para b.kind.style := by
    cases hk : b.kind with
    | poeticLine => exact absurd (by rw [hk]; rfl) hb
    | _ => rfl
  rw [hpattern]
  exact Document.takes_body b.kind.style (nowhere_closing b) b.head offset

/-- The answers of the stages that ask at most whether a block comes first. -/
theorem Block.rule_eq_laid (hb : b.kind.stage ≠ .poeticLine)
    (hsuppress : config.suppressLeadingHeading = false) {t : StyledText} {o : Occurrence}
    (hgroup : o.group 0 = .plain b.content)
    (hfirst : b.kind.stage = .paragraph → (o.found.start = 0 ↔ prev = none)) (rest : List Block) :
    b.kind.stage.rule config t o = b.laid prev rest := by
  unfold Block.laid
  cases hk : b.kind with
  | poeticLine => exact absurd (by rw [hk]; rfl) hb
  | majorHeading =>
    simp [Kind.stage, Stage.rule, hsuppress, Passage.Block.majorHeadingAt,
      Passage.Block.majorHeading, Passage.Block.heading, hgroup, lead, trail, dress,
      StyledText.eq_iff_chars]
  | heading =>
    simp [Kind.stage, Stage.rule, Passage.Block.heading, hgroup, lead, trail, dress,
      StyledText.eq_iff_chars]
  | paragraph =>
    have hfirst := hfirst (by rw [hk]; rfl)
    have hlead : (0 < o.found.start) ↔ prev.isSome = true := by
      rw [Nat.pos_iff_ne_zero, ne_eq, hfirst, ← ne_eq, Option.ne_none_iff_isSome]
    simp only [Kind.stage, Stage.rule, Passage.Block.paragraphAt, hgroup, lead, trail, dress,
      hlead]
  | oppositeLine =>
    simp [Kind.stage, Stage.rule, Passage.Block.oppositeLine, hgroup, lead, trail, dress,
      StyledText.eq_iff_chars]

/-- The stages that ask at most whether a block comes first. -/
def toldStages : List Stage :=
  [.majorSectionHeading, .sectionHeading, .paragraph, .blankLine, .rightAlignedPoeticLine, .note,
    .chapterLabel, .selah]

theorem apply_told (hs : s ∈ toldStages) (hran : s ∉ ran)
    (hsuppress : config.suppressLeadingHeading = false)
    (hopen : s ≠ .paragraph ∨ ∀ k : Kind, k.isOpen = true → k.stage ∉ ran) (bs : List Block) :
    s.apply config (forms ran none bs) = forms (ran ++ [s]) none bs := by
  have htag : s ∈ tagStages := (by decide : toldStages ⊆ tagStages) hs
  have hv : s ≠ .verse := fun h => absurd (h ▸ hs) (by decide)
  have hp : s ≠ .poeticLine := fun h => absurd (h ▸ hs) (by decide)
  refine apply_forms htag hv hran config bs ?_
  rintro front prev b rest hends - rfl
  obtain ⟨x, htakes, hgroup⟩ := b.takes hp front.text.length
  refine ⟨x, htakes, Block.rule_eq_laid hp hsuppress hgroup (fun hparagraph => ?_) rest⟩
  exact List.length_eq_zero_iff.trans (hends.eq_nil_iff (hopen.resolve_left (· hparagraph)))

/-! ## Lines of poetry -/

/-- The open blocks, and no others, are still to be laid out. -/
def OpenLeft (ran : List Stage) : Prop :=
  ∀ k : Kind, k.stage ∈ ran ↔ k.isOpen = false

theorem OpenLeft.not_mem (hleft : OpenLeft ran) {k : Kind} (hk : k.isOpen = true) :
    k.stage ∉ ran := by
  rw [hleft k, hk]
  exact Bool.noConfusion

theorem needsLeadingBreak_eq (hleft : OpenLeft ran) {front : List Char} (h : Ends ran prev front) :
    Poetry.needsLeadingBreak front = prev.any Kind.isOpen := by
  have hlast (k : Kind) :
      (if k.stage ∈ ran then '\n' else '>') = if k.isOpen then '>' else '\n' := by
    have hk := hleft k
    cases hopen : k.isOpen <;> simp [hopen] at hk <;> simp [hk]
  refine Poetry.needsLeadingBreak_of_getLast? ?_
  rw [h fun k hk => hleft.not_mem hk]
  exact congrArg (Option.map · prev) (funext hlast)

theorem startsWith_source (b : Block) (more : List Char) :
    Text.startsWith "<para".toList (b.source ++ more) = true := by
  obtain ⟨tail, htail⟩ := Document.para_eq_style b.kind.style b.content more
  rw [Text.startsWith, Option.isSome_iff_exists]
  exact ⟨_, Text.dropLiteral?_eq_some_iff.mpr htail⟩

/-- A tag of a block is left exactly if an open block is. -/
theorem holds_forms (hleft : OpenLeft ran) (prev : Option Kind) (bs : List Block) :
    Text.holds "<para".toList (forms ran prev bs).text = bs.any (·.kind.isOpen) := by
  induction bs generalizing prev with
  | nil => rfl
  | cons b rest ih =>
    rw [forms, StyledText.text_append, List.any_cons]
    cases hopen : b.kind.isOpen with
    | true =>
      obtain ⟨tail, htail, -⟩ := Document.para_tail (k := 'n') (by decide) b.kind.styledAs.noTag
        (.of_noTag b.noTag)
      have hstart := startsWith_source b (forms ran (some b.kind) rest).text
      rw [Block.form, if_neg (hleft.not_mem hopen), StyledText.text_plain]
      rw [Block.source, htail] at hstart ⊢
      exact Text.holds_of_startsWith hstart
    | false =>
      have hfree : Document.Free 'p' (b.form ran prev rest).text := by
        rw [Block.form, if_pos ((hleft b.kind).mpr hopen)]
        exact .of_noTag (Block.noTag_text_laid prev rest b)
      rw [Text.holds_append hfree.para, ih, Bool.false_or]

/-- After a line of poetry a break is asked for exactly if a heading follows, with an open block
further on. -/
theorem needsTrailingBreak_forms (hleft : OpenLeft ran) (k : Kind) (bs : List Block) :
    Poetry.needsTrailingBreak (forms ran (some k) bs).text =
      (bs.head?.any (·.kind.isHeading) && bs.any (·.kind.isOpen)) := by
  cases bs with
  | nil => rfl
  | cons b rest =>
    rw [forms, StyledText.text_append, List.head?_cons, Option.any_some, List.any_cons]
    by_cases hopen : b.kind.isOpen = true
    · have hheading : b.kind.isHeading = false := by
        cases hk : b.kind <;> rw [hk] at hopen <;> first | rfl | cases hopen
      rw [Block.form, if_neg (hleft.not_mem hopen), StyledText.text_plain,
        Poetry.needsTrailingBreak_of_startsWith (startsWith_source b _), hheading, Bool.false_and]
    · have hopen : b.kind.isOpen = false := by simpa using hopen
      rw [Block.form, if_pos ((hleft b.kind).mpr hopen), Block.text_laid, hopen]
      cases hk : b.kind with
      | poeticLine | oppositeLine =>
        rw [hk] at hopen
        cases hopen
      | paragraph => exact Poetry.needsTrailingBreak_of_break _
      | majorHeading | heading =>
        obtain ⟨c, cs, hshown, hc⟩ := b.exists_shown
        have htext (x : List Char) :
            lead (some k) b.kind ++ b.shown ++ trail rest b.kind ++ x = c :: cs ++ '\n' :: x := by
          simp [hk, lead, trail, hshown]
        rw [← hk, htext, Poetry.needsTrailingBreak_of_heading hc (hshown ▸ b.noTag_shown),
          holds_forms hleft, hk]
        simp [Kind.isHeading]

theorem opensWithVerse_content (b : Block) : Poetry.opensWithVerse b.content = false := by
  have hopens := Document.opensWithVerse_text b.ne_nil b.noTag []
  rwa [List.append_nil] at hopens

theorem apply_poeticLine (hleft : OpenLeft ran) (hran : .poeticLine ∉ ran) (config : RenderConfig)
    (bs : List Block) :
    Stage.poeticLine.apply config (forms ran none bs) = forms (ran ++ [.poeticLine]) none bs := by
  refine apply_forms (by decide) (by decide) hran config bs ?_
  intro front prev b rest hends ht hb
  cases hk : b.kind with
  | poeticLine digits ne_nil decimal =>
    obtain ⟨x, htakes, hlevel, hcontent⟩ :=
      Document.takes_line ne_nil decimal (nowhere_closing b) b.head front.text.length
    have hsource : b.source = Document.para ('q' :: digits) b.content := by
      rw [Block.source, hk, Kind.style]
    have htext := congrArg StyledText.text ht
    rw [hsource, StyledText.text_append, StyledText.text_append, StyledText.text_plain] at htext
    have hlead : (forms ran none bs).text.take front.text.length = front.text := by
      rw [← htext, List.take_left]
    have htrail : (forms ran none bs).text.drop (front.text.length + x.length) =
        (forms ran (some b.kind) rest).text := by
      rw [← htext, htakes.length_eq, ← List.drop_drop, List.drop_left, List.drop_left]
    rw [hsource]
    refine ⟨x, htakes, ?_⟩
    rw [Block.laid, hk]
    simp only [Stage.rule, Poetry.lineAt, Tag.Match.span, hlead, htrail, hlevel, hcontent,
      needsLeadingBreak_eq hleft hends, needsTrailingBreak_forms hleft, StyledText.text_plain,
      StyledText.addStyles_plain, StyledText.text_styled, Poetry.indentWidth,
      opensWithVerse_content, Bool.and_false, Bool.false_eq_true, if_false, lead, trail, dress]
  | _ =>
    rw [hk] at hb
    cases hb

end Passage.Plain
