import Passage.Proofs.Layout.Blocks

/-! What the stages of blocks answer to their own blocks. The content that a pattern captures is
the content that was printed, and the text before a block tells whether the block comes first:
until poetic lines are laid out, what is laid out ends in a line break and what is not ends in a
tag. -/

namespace Passage

/-- The part of a match between two others. -/
theorem Occurrence.group_styled {m : Tag.Match} {a b c : List Char} {styles : StyleSet} {i : Nat}
    (h : m.extent.groups[i]? = some ⟨a.length, (a ++ b).length⟩) :
    Occurrence.group ⟨m, .styled (a ++ b ++ c) styles⟩ i = .styled b styles := by
  rw [Occurrence.group, h, StyledText.eq_iff_chars]
  simp

namespace Document

variable {breaks : Bool} {ran : List Stage}

/-! ## Captured content -/

theorem Tidy.isBlank_head {cs : List Char} (h : Tidy cs) :
    ∀ c ∈ cs.head?, Text.isBlank c = false := by
  intro c hc
  rw [Bool.eq_false_iff]
  intro hb
  have hspace := h.spaces c (List.mem_of_mem_head? hc) hb
  exact h.head (hspace ▸ hc)

theorem takes_body (style : List Char) {body : List Char}
    (hb : Tag.Nowhere (Text.dropLiteral? closing) body)
    (hh : ∀ c ∈ body.head?, Text.isBlank c = false) (offset : Nat) :
    ∃ x, (Tag.Pattern.para style).Takes (para style body) x ∧
      Occurrence.group ⟨⟨offset, x⟩, .plain (para style body)⟩ 0 = .plain body := by
  refine ⟨_, takes_para style hb hh, ?_⟩
  rw [para_eq]
  exact Occurrence.group_styled rfl

theorem takes_phrase (style : List Char) (t : Phrase) (offset : Nat) :
    ∃ x, (Tag.Pattern.para style).Takes (para style t.text) x ∧
      Occurrence.group ⟨⟨offset, x⟩, .plain (para style t.text)⟩ 0 = .plain t.text :=
  takes_body style (Tag.Nowhere.of_not_mem t.noTag) t.tidy.isBlank_head offset

theorem nowhere_closing (c : Content) : Tag.Nowhere (Text.dropLiteral? closing) c.source :=
  (Free.content (k := '/') (by decide) c).dropLiteral? "para>".toList

theorem takes_content (style : List Char) (c : Content) (offset : Nat) :
    ∃ x, (Tag.Pattern.para style).Takes (para style c.source) x ∧
      Occurrence.group ⟨⟨offset, x⟩, .plain (para style c.source)⟩ 0 = .plain c.source :=
  takes_body style (nowhere_closing c) c.tidy.isBlank_head offset

/-! ## The text before a block -/

theorem getLast?_source (e : Element) : e.source.getLast? = some '>' := by
  have hpara (style body : List Char) : (para style body).getLast? = some '>' := by
    rw [para_eq, List.getLast?_append]
    rfl
  cases e <;> first | exact hpara _ _ | rfl

/-- The last character of a block, while no open block is laid out. -/
theorem getLast?_form (hopen : ∀ e : Element, e.isOpen = true → e.stage ∉ ran)
    (done rest : List Element) (e : Element) :
    (e.form breaks ran done rest).text.getLast? =
      some (if e.stage ∈ ran then '\n' else '>') := by
  unfold Element.form
  split
  · rename_i hran
    cases e with
    | poeticLine | oppositeLine | chapterLabel => exact absurd hran (hopen _ rfl)
    | _ => simp [Element.layoutWith]
  · rw [StyledText.text_plain]
    exact getLast?_source e

theorem getLast?_before (hopen : ∀ e : Element, e.isOpen = true → e.stage ∉ ran)
    (done rest : List Element) :
    (before (Element.form breaks ran) done rest).text.getLast? =
      done.getLast?.map fun e => if e.stage ∈ ran then '\n' else '>' := by
  rcases done.eq_nil_or_concat with rfl | ⟨done, e, rfl⟩
  · rfl
  · rw [List.concat_eq_append, before_append, StyledText.text_append, List.getLast?_append,
      getLast?_form hopen]
    simp

theorem length_before_eq_zero (hopen : ∀ e : Element, e.isOpen = true → e.stage ∉ ran)
    (done rest : List Element) :
    (before (Element.form breaks ran) done rest).chars.length = 0 ↔ done = [] := by
  rw [← StyledText.length_text, List.length_eq_zero_iff, ← List.getLast?_eq_none_iff,
    getLast?_before hopen, Option.map_eq_none_iff, List.getLast?_eq_none_iff]

/-! ## The passes -/

section

variable (config : RenderConfig) (doc : List Element)

/-- A stage whose blocks are phrases and that wraps what it captures. -/
theorem apply_phrase (wrap : StyledText → StyledText) {s : Stage} (hs : s ∈ tagStages)
    (hv : s ≠ .verse) (hran : s ∉ ran) {style : List Char} (hpattern : s.pattern = .para style)
    (hrule : ∀ t o, s.rule config t o = wrap (o.group 0))
    (hown : ∀ e : Element, e.stage = s → ∃ t : Phrase, e.source = para style t.text ∧
      ∀ content d r, e.layoutWith content d r = wrap (.plain t.text)) :
    s.apply config (spread (Element.form breaks ran) [] doc) =
      spread (Element.form breaks (ran ++ [s])) [] doc := by
  refine apply_form hs hv hran config ?_
  intro d e r offset _ he _
  obtain ⟨t, hsource, hlayout⟩ := hown e he
  obtain ⟨x, htakes, hgroup⟩ := takes_phrase style t offset
  refine ⟨x, ?_, ?_⟩
  · rwa [hpattern, hsource]
  · rw [hsource, hrule, hgroup, hlayout]

theorem apply_sectionHeading (hran : .sectionHeading ∉ ran) :
    Stage.sectionHeading.apply config (spread (Element.form breaks ran) [] doc) =
      spread (Element.form breaks (ran ++ [.sectionHeading])) [] doc := by
  refine apply_phrase config doc Block.heading (by decide) (by decide) hran rfl
    (fun _ _ => rfl) ?_
  intro e he
  cases e with
  | heading t =>
    refine ⟨t, rfl, fun _ _ _ => ?_⟩
    rw [Block.heading, StyledText.addStyles_plain]
    rfl
  | _ => cases he

theorem apply_paragraph (hopen : ∀ e : Element, e.isOpen = true → e.stage ∉ ran)
    (hran : .paragraph ∉ ran) (hverse : .verse ∉ ran) :
    Stage.paragraph.apply config (spread (Element.form breaks ran) [] doc) =
      spread (Element.form breaks (ran ++ [.paragraph])) [] doc := by
  refine apply_form (by decide) (by decide) hran config ?_
  intro d e r offset _ he ho
  cases e with
  | paragraph c =>
    obtain ⟨x, htakes, hgroup⟩ := takes_content ['p'] c offset
    refine ⟨x, htakes, ?_⟩
    have hfirst : offset = 0 ↔ d = [] := ho ▸ length_before_eq_zero hopen d (.paragraph c :: r)
    unfold Element.source
    simp only [Stage.rule]
    rw [Block.paragraphAt, hgroup, Element.layoutWith, Content.form, if_neg hverse]
    by_cases hd : d = []
    · simp [hfirst.mpr hd, hd]
      rfl
    · have hpos : 0 < offset := Nat.pos_of_ne_zero (mt hfirst.mp hd)
      simp [hpos, hd]
      rfl
  | _ => cases he

theorem apply_blankLine (hran : .blankLine ∉ ran) :
    Stage.blankLine.apply config (spread (Element.form breaks ran) [] doc) =
      spread (Element.form breaks (ran ++ [.blankLine])) [] doc := by
  refine apply_form (by decide) (by decide) hran config ?_
  intro d e r offset _ he _
  cases e with
  | blankLine => exact ⟨_, takes_blankLine, rfl⟩
  | _ => cases he

theorem apply_rightAlignedPoeticLine (hran : .rightAlignedPoeticLine ∉ ran) :
    Stage.rightAlignedPoeticLine.apply config (spread (Element.form breaks ran) [] doc) =
      spread (Element.form breaks (ran ++ [.rightAlignedPoeticLine])) [] doc := by
  refine apply_phrase config doc Block.oppositeLine (by decide) (by decide) hran rfl
    (fun _ _ => rfl) ?_
  intro e he
  cases e with
  | oppositeLine t =>
    refine ⟨t, rfl, fun _ _ _ => ?_⟩
    rw [Block.oppositeLine, StyledText.addStyles_plain]
    rfl
  | _ => cases he

theorem apply_chapterLabel (hran : .chapterLabel ∉ ran) :
    Stage.chapterLabel.apply config (spread (Element.form breaks ran) [] doc) =
      spread (Element.form breaks (ran ++ [.chapterLabel])) [] doc := by
  refine apply_phrase config doc Block.chapterLabel (by decide) (by decide) hran rfl
    (fun _ _ => rfl) ?_
  intro e he
  cases e with
  | chapterLabel t =>
    refine ⟨t, rfl, fun _ _ _ => ?_⟩
    rw [Block.chapterLabel, StyledText.addStyles_plain]
    rfl
  | _ => cases he

/-- Notes and what is set apart in a line are no blocks. -/
theorem apply_inline {s : Stage} (hs : s = .note ∨ s = .selah) (hran : s ∉ ran) :
    s.apply config (spread (Element.form breaks ran) [] doc) =
      spread (Element.form breaks (ran ++ [s])) [] doc := by
  have htag : s ∈ tagStages := by
    rcases hs with rfl | rfl <;> decide
  have hv : s ≠ .verse := by
    rcases hs with rfl | rfl <;> decide
  refine apply_form htag hv hran config ?_
  intro d e r offset _ he _
  rcases hs with rfl | rfl <;> cases e <;> cases he

end

/-! ## Major headings -/

/-- While no other block is laid out, a block has one form in all places. -/
theorem form_majorHeading (hran : ∀ s ∈ tagStages, s ∉ ran) (done rest : List Element)
    (e : Element) :
    e.form breaks (ran ++ [.majorSectionHeading]) done rest =
      e.form breaks (ran ++ [.majorSectionHeading]) [] [] := by
  by_cases he : e.stage = .majorSectionHeading
  · cases e with
    | majorHeading t => rfl
    | _ => cases he
  · have hraw : e.stage ∉ ran := hran _ e.stage_mem_tagStages
    simp [Element.form, hraw, he]

/-- What the pass over major headings makes of a block: it may drop one that comes first. -/
def Element.headed (suppress breaks : Bool) (ran : List Stage) (done rest : List Element)
    (e : Element) : StyledText :=
  if suppress && done.isEmpty && e.stage == .majorSectionHeading then ∅
  else e.form breaks (ran ++ [.majorSectionHeading]) done rest

/-- To drop the heading in its place is to lay out the document without it. -/
theorem spread_headed (hran : ∀ s ∈ tagStages, s ∉ ran) (suppress : Bool) (doc : List Element) :
    spread (Element.headed suppress breaks ran) [] doc =
      spread (Element.form breaks (ran ++ [.majorSectionHeading])) [] (remaining suppress doc) := by
  have hrest (done : List Element) (hd : done ≠ []) (doc : List Element) :
      spread (Element.headed suppress breaks ran) done doc =
        spread (Element.form breaks (ran ++ [.majorSectionHeading])) done doc := by
    refine spread_congr fun front e r _ => ?_
    simp [Element.headed, hd]
  cases doc with
  | nil =>
    cases suppress <;> rfl
  | cons e doc =>
    rw [spread, hrest _ (by simp)]
    by_cases hdrop : suppress = true ∧ e.stage = .majorSectionHeading
    · obtain ⟨rfl, he⟩ := hdrop
      cases e with
      | majorHeading t =>
        have hflat (done : List Element) :
            spread (Element.form breaks (ran ++ [.majorSectionHeading])) done doc =
              spread (fun _ _ => Element.form breaks (ran ++ [.majorSectionHeading]) [] []) done
                doc :=
          spread_congr fun front e r _ => form_majorHeading hran (done ++ front) r e
        rw [Element.headed, if_pos (by simp [he]), StyledText.empty_append, hflat, spread_const]
        exact (hflat []).symm
      | _ => cases he
    · have hsame : remaining suppress (e :: doc) = e :: doc := by
        cases e <;> cases suppress <;> simp_all [remaining, Element.stage]
      rw [hsame, spread, Element.headed, if_neg (by simpa using hdrop)]

/-- The first of the passes over blocks. -/
theorem apply_majorSectionHeading (hran : ∀ s ∈ tagStages, s ∉ ran) (config : RenderConfig)
    (doc : List Element) :
    Stage.majorSectionHeading.apply config (spread (Element.form breaks ran) [] doc) =
      spread (Element.form breaks (ran ++ [.majorSectionHeading])) []
        (remaining config.suppressLeadingHeading doc) := by
  rw [← spread_headed hran]
  refine apply_eq_spread (by decide) (by decide) (hran _ (by decide)) config ?_ ?_
  · intro d r e he
    rw [Element.headed, if_neg (by simp [he]), form_append (by decide) he]
  · intro d e r offset _ he ho
    cases e with
    | majorHeading t =>
      obtain ⟨x, htakes, hgroup⟩ := takes_phrase ['m', 's'] t offset
      refine ⟨x, htakes, ?_⟩
      have hfirst : offset = 0 ↔ d = [] :=
        ho ▸ length_before_eq_zero (fun e _ => hran _ e.stage_mem_tagStages) d
          (.majorHeading t :: r)
      unfold Element.source
      simp only [Stage.rule]
      have hplace : (offset == 0) = d.isEmpty := by
        rw [Bool.eq_iff_iff, beq_iff_eq, List.isEmpty_iff, hfirst]
      unfold Block.majorHeadingAt Element.headed
      rw [hgroup, hplace]
      cases config.suppressLeadingHeading && d.isEmpty with
      | true => rfl
      | false =>
        rw [Bool.false_and, if_neg Bool.false_ne_true, if_neg Bool.false_ne_true, form_own he,
          Block.majorHeading, StyledText.mapText_upper_plain, Block.heading,
          StyledText.addStyles_plain]
        rfl
    | _ => cases he

end Document

end Passage
