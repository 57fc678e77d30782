import Passage.Proofs.Layout.Buffer

/-! The passes over blocks. A stage of blocks finds the blocks that it lays out and no others,
whatever stages have run before it, so its pass is told by what it answers to such a block in its
place (`apply_eq_spread`). -/

namespace Passage.Document

variable {k : Char} {breaks : Bool} {ran : List Stage}

/-! ## Blocks of other stages -/

theorem noTag_upper {cs : List Char} (h : '<' ∉ cs) : '<' ∉ Text.upper cs :=
  mt (Text.mem_upper_iff (by decide) (by decide)).mp h

theorem noTag_layoutInlines (styles : StyleSet) (seen : List Nat) (is : List Inline) :
    '<' ∉ (layoutInlines breaks styles seen is).text := by
  induction is generalizing seen with
  | nil => exact List.not_mem_nil
  | cons i is ih =>
    rw [layoutInlines, StyledText.text_append, List.mem_append, not_or]
    refine ⟨?_, ih _⟩
    cases i with
    | text cs _ noTag => rwa [Inline.layout, StyledText.text_styled]
    | verse n =>
      have hn := noTag_decimal n
      simp only [Inline.layout]
      split
      · exact List.not_mem_nil
      · split <;> simp [hn]

theorem free_form_content (hk : k ≠ 'v') (styles : StyleSet) (seen : List Nat) (c : Content) :
    Free k (Content.form breaks ran styles seen c).text := by
  unfold Content.form
  split
  · exact .of_noTag (noTag_layoutInlines styles seen c.inlines)
  · rw [Content.draft, StyledText.text_styled]
    exact .content hk c

theorem free_layoutWith {content : StyleSet → List Nat → Content → StyledText}
    (h : ∀ styles seen c, Free k (content styles seen c).text) (done rest : List Element)
    (e : Element) : Free k (e.layoutWith content done rest).text := by
  cases e with
  | majorHeading t =>
    have := noTag_upper t.noTag
    exact .of_noTag (by simp [Element.layoutWith, this])
  | heading t | oppositeLine t | chapterLabel t =>
    have := t.noTag
    exact .of_noTag (by simp [Element.layoutWith, this])
  | blankLine => exact .of_noTag (by simp [Element.layoutWith])
  | paragraph c =>
    simp only [Element.layoutWith, StyledText.text_append, StyledText.text_plain]
    refine ((Free.of_noTag ?_).append (h _ _ c)).append (.of_noTag (by decide))
    split <;> decide
  | poeticLine level _ c =>
    simp only [Element.layoutWith, StyledText.text_append, StyledText.text_plain]
    refine ((Free.of_noTag ?_).append (h _ _ c)).append (.of_noTag ?_)
    · unfold leadingBreak
      split <;> simp
    · unfold trailingBreak
      split <;> decide

theorem quiet_form {s : Stage} (hs : s ∈ tagStages) (hv : s ≠ .verse) {e : Element}
    (h : e.stage ≠ s) (done rest : List Element) :
    s.pattern.Quiet (e.form breaks ran done rest).text := by
  have hk : letter s ≠ 'v' := by
    cases s <;> first | exact absurd rfl hv | decide
  unfold Element.form
  split
  · exact quiet_of_free hs (free_layoutWith (free_form_content hk) done rest e)
  · rw [StyledText.text_plain]
    exact quiet_source hs hv h

/-! ## The pass -/

/-- A pass gives `g` if it answers with `g` to the blocks of its stage, and `g` has the others as
they were. -/
theorem apply_eq_spread {s : Stage} (hs : s ∈ tagStages) (hv : s ≠ .verse) (hran : s ∉ ran)
    (config : RenderConfig) {g : List Element → List Element → Element → StyledText}
    (other : ∀ d r e, e.stage ≠ s → g d r e = e.form breaks ran d r) {doc : List Element}
    (own : ∀ d e r offset, d ++ e :: r = doc → e.stage = s →
      offset = (before (Element.form breaks ran) d (e :: r)).chars.length →
      ∃ x, s.pattern.Takes e.source x ∧
        s.rule config (spread (Element.form breaks ran) [] doc)
          ⟨⟨offset, x⟩, .plain e.source⟩ = g d r e) :
    s.apply config (spread (Element.form breaks ran) [] doc) = spread g [] doc := by
  have hblock : ∀ d e r, d ++ e :: r = [] ++ doc →
      Rewrites s.pattern
        (fun _ o => (s.rule config (spread (Element.form breaks ran) [] doc) o, ()))
        (before (Element.form breaks ran) d (e :: r)).chars.length ()
        (e.form breaks ran d r).chars (g d r e).chars () := by
    intro d e r hd
    by_cases he : e.stage = s
    · obtain ⟨x, htakes, hrule⟩ := own d e r _ hd he rfl
      rw [Element.form, if_neg (he ▸ hran)]
      refine Rewrites.of_takes (e := x) ?_ ?_
      · rwa [← StyledText.text_eq_map_chars, StyledText.text_plain]
      · rw [StyledText.ofChars_chars, hrule]
    · rw [other d r e he]
      refine .of_quiet ?_
      rw [← StyledText.text_eq_map_chars]
      exact quiet_form hs hv he d r
  have hpass := @rewrites_spread (Element.form breaks ran) g Unit s.pattern
    (fun _ o => (s.rule config (spread (Element.form breaks ran) [] doc) o, ())) (fun _ => ()) []
    doc hblock
  rw [Stage.apply_eq_replaced hv, StyledText.replaced_eq hpass, StyledText.ofChars_chars]

/-- The pass of a stage that answers to its blocks with their layout. -/
theorem apply_form {s : Stage} (hs : s ∈ tagStages) (hv : s ≠ .verse) (hran : s ∉ ran)
    (config : RenderConfig) {doc : List Element}
    (own : ∀ d e r offset, d ++ e :: r = doc → e.stage = s →
      offset = (before (Element.form breaks ran) d (e :: r)).chars.length →
      ∃ x, s.pattern.Takes e.source x ∧
        s.rule config (spread (Element.form breaks ran) [] doc)
          ⟨⟨offset, x⟩, .plain e.source⟩ =
            e.layoutWith (Content.form breaks ran) d r) :
    s.apply config (spread (Element.form breaks ran) [] doc) =
      spread (Element.form breaks (ran ++ [s])) [] doc := by
  refine apply_eq_spread hs hv hran config (fun d r e he => form_append hv he d r) ?_
  intro d e r offset hd he ho
  obtain ⟨x, htakes, hrule⟩ := own d e r offset hd he ho
  refine ⟨x, htakes, ?_⟩
  rw [hrule, form_own he]
  simp [Content.form, hv.symm]

end Passage.Document
