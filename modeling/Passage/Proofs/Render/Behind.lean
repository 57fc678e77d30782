import Passage.Proofs.Layout.Poetry
import Passage.Proofs.Tag.Grammar

/-! Passes behind a text in which they find nothing. That text stands, and what comes after it is
passed over as it would be alone: no tag is told by its place. Of the answers to the tags two look
at what comes before, a paragraph at whether it opens the text and a poetic line at the line before
it; so the first of all paragraphs may start a line that it would not start alone, and nothing else
changes. -/

namespace Passage

variable {σ : Type} {p : Tag.Pattern} {rule : σ → Occurrence → StyledText × σ} {offset : Nat}
  {s s' : σ} {cs out : List StyledChar}

namespace Passes

/-- Every text is passed over. -/
theorem exists_of_family (f : Tag.Family) (rule : σ → Occurrence → StyledText × σ) (offset : Nat)
    (s : σ) (cs : List StyledChar) : ∃ out s', Passes f.pattern rule offset s cs out s' := by
  induction hlen : cs.length using Nat.strongRecOn generalizing offset s cs with
  | _ k ih =>
    cases cs with
    | nil => exact ⟨[], s, .nil⟩
    | cons c cs =>
      cases hm : f.pattern.match? (offset == 0) ((c :: cs).map Prod.fst) with
      | none =>
        obtain ⟨out, s', h⟩ := ih cs.length (by simp [← hlen]) (offset + 1) s cs rfl
        exact ⟨c :: out, s', .keep hm h⟩
      | some e =>
        obtain ⟨parts, after, hspells, hcs, rfl⟩ := f.match?_eq_some_iff.mp hm
        obtain ⟨x, rest, hxr, hx, -⟩ := List.map_eq_append_iff.mp hcs
        have hxlen : (Tag.extentFrom 0 parts).length = x.length := by
          have hspelled := congrArg List.length hx
          rw [List.length_map] at hspelled
          exact (Nat.zero_add _).trans hspelled.symm
        have hne : x ≠ [] := by
          rintro rfl
          exact hspells.spell_ne_nil hx.symm
        rw [hxr] at hlen hm ⊢
        have hpos := List.length_pos_iff.mpr hne
        rw [List.length_append] at hlen
        obtain ⟨out, s', h⟩ := ih rest.length (by omega) (offset + x.length)
          (rule s ⟨⟨offset, Tag.extentFrom 0 parts⟩, .ofChars x⟩).2 rest rfl
        exact ⟨_, s', .tag hne hxlen hm h⟩

/-- A pass further on in a text, by a rule that answers there as the other one does before. -/
theorem shift {pieces : List Tag.Piece} (h : Passes (.tag pieces) rule offset s cs out s')
    (rule' : σ → Occurrence → StyledText × σ) (n : Nat)
    (hrule : ∀ i s e u, offset ≤ i → rule' s ⟨⟨i + n, e⟩, u⟩ = rule s ⟨⟨i, e⟩, u⟩) :
    Passes (.tag pieces) rule' (offset + n) s cs out s' := by
  induction h with
  | nil => exact .nil
  | keep hm _ ih =>
    refine .keep hm ?_
    rw [Nat.add_right_comm]
    exact ih fun i s e u hi => hrule i s e u (Nat.le_of_succ_le hi)
  | tag hne hlen hm _ ih =>
    rw [← hrule _ _ _ _ (Nat.le_refl _)] at ih ⊢
    refine .tag hne hlen hm ?_
    rw [Nat.add_right_comm]
    exact ih fun i s e u hi => hrule i s e u (Nat.le_trans (Nat.le_add_right _ _) hi)

end Passes

namespace Stage

open Document (tagStages)

variable {s : Stage} {config : RenderConfig} {front t : StyledText}

theorem exists_passes (s : Stage) (rule : σ → Occurrence → StyledText × σ) (offset : Nat)
    (state : σ) (cs : List StyledChar) :
    ∃ out state', Passes s.pattern rule offset state cs out state' := by
  obtain ⟨f, hf⟩ := Tag.exists_family s
  rw [hf]
  exact Passes.exists_of_family f rule offset state cs

/-- What a pass makes of a text is what the stage makes of it. -/
theorem apply_eq_of_passes (hv : s ≠ verse) {t : StyledText} {out : List StyledChar}
    (h : Passes s.pattern (fun _ o => (s.rule config t o, ())) 0 () t.chars out ()) :
    s.apply config t = .ofChars out := by
  rw [apply_eq_replaced hv, h.replaced_eq]

theorem passes_apply (hv : s ≠ verse) (config : RenderConfig) (t : StyledText) :
    Passes s.pattern (fun _ o => (s.rule config t o, ())) 0 () t.chars (s.apply config t).chars
      () := by
  obtain ⟨out, _, h⟩ := s.exists_passes (fun _ o => (s.rule config t o, ())) 0 () t.chars
  rwa [apply_eq_of_passes hv h, StyledText.chars_ofChars]

/-- A stage that finds nothing leaves the text as it is. -/
theorem apply_of_quiet (hv : s ≠ verse) (config : RenderConfig) (h : s.pattern.Quiet t.text) :
    s.apply config t = t := by
  rw [StyledText.text_eq_map_chars] at h
  rw [apply_eq_of_passes hv (Rewrites.of_quiet h).passes, StyledText.ofChars_chars]

theorem exists_pieces (hs : s ∈ tagStages) : ∃ pieces, s.pattern = .tag pieces := by
  cases s with
  | trim | lineBreaks | whitespace => exact absurd hs (by decide)
  | _ => exact ⟨_, rfl⟩

/-! ## Behind a text -/

/-- A stage that answers behind a text as it does without it. -/
theorem apply_behind (hs : s ∈ tagStages) (hv : s ≠ verse) (hq : s.pattern.Quiet front.text)
    (hrule : ∀ i e u, s.rule config (front ++ t) ⟨⟨i + front.chars.length, e⟩, u⟩ =
      s.rule config t ⟨⟨i, e⟩, u⟩) :
    s.apply config (front ++ t) = front ++ s.apply config t := by
  obtain ⟨pieces, hpieces⟩ := exists_pieces hs
  have hrest := passes_apply hv config t
  rw [hpieces] at hrest
  have hshifted := hrest.shift (fun _ o => (s.rule config (front ++ t) o, ())) front.chars.length
    fun i _ e u _ => congrArg (·, ()) (hrule i e u)
  rw [← hpieces] at hshifted
  rw [StyledText.text_eq_map_chars] at hq
  have hall := hshifted.quiet_append hq
  rw [← StyledText.chars_append] at hall
  rw [apply_eq_of_passes hv hall, StyledText.eq_iff_chars, StyledText.chars_ofChars,
    StyledText.chars_append]

/-- The stages whose answer to a tag is told by the tag. -/
def placeless : List Stage :=
  [.sectionHeading, .blankLine, .rightAlignedPoeticLine, .note, .chapterLabel, .selah]

theorem apply_placeless_behind (hs : s ∈ placeless) (hq : s.pattern.Quiet front.text) :
    s.apply config (front ++ t) = front ++ s.apply config t := by
  have htag : s ∈ tagStages := (by decide : placeless ⊆ tagStages) hs
  have hv : s ≠ verse := by
    rintro rfl
    exact absurd hs (by decide)
  refine apply_behind htag hv hq fun i e u => ?_
  cases s with
  | trim | lineBreaks | whitespace | majorSectionHeading | paragraph | poeticLine | verse =>
    exact absurd hs (by decide)
  | _ => rfl

theorem afterStages_behind {l : List Stage} (hl : ∀ s ∈ l, s ∈ placeless)
    (hq : ∀ s ∈ l, s.pattern.Quiet front.text) (t : StyledText) :
    afterStages config (front ++ t) l = front ++ afterStages config t l := by
  induction l generalizing t with
  | nil => rfl
  | cons s l ih =>
    obtain ⟨hs, hl⟩ := List.forall_mem_cons.mp hl
    obtain ⟨hqs, hq⟩ := List.forall_mem_cons.mp hq
    rw [afterStages, afterStages, apply_placeless_behind hs hqs, ih hl hq]

/-- A paragraph that opens a text starts a line further on. -/
theorem chars_paragraphAt {n : Nat} (hn : 0 < n) (e : Tag.Extent) (u : StyledText) :
    (Block.paragraphAt ⟨⟨n, e⟩, u⟩).chars =
      (StyledText.plain ['\n']).chars ++ (Block.paragraphAt ⟨⟨0, e⟩, u⟩).chars := by
  rw [← StyledText.chars_append, ← StyledText.eq_iff_chars, Block.paragraphAt, Block.paragraphAt,
    if_pos hn, if_neg (Nat.lt_irrefl 0), ← StyledText.append_assoc, ← StyledText.append_assoc]
  congr 2

theorem passes_paragraph_behind {cs out : List StyledChar} {n : Nat} (hn : 0 < n)
    (h : Passes paragraph.pattern (fun _ o => (Block.paragraphAt o, ())) 0 () cs out ()) :
    ∃ gap, (gap = [] ∨ gap = ['\n']) ∧
      Passes paragraph.pattern (fun _ o => (Block.paragraphAt o, ())) n () cs
        ((StyledText.plain gap).chars ++ out) () := by
  have hlater : ∀ (i : Nat) (_ : Unit) (e : Tag.Extent) (u : StyledText), 1 ≤ i →
      (Block.paragraphAt ⟨⟨i + n, e⟩, u⟩, ()) = (Block.paragraphAt ⟨⟨i, e⟩, u⟩, ()) := by
    intro i _ e u hi
    rw [Prod.mk.injEq, StyledText.eq_iff_chars, chars_paragraphAt (by omega), chars_paragraphAt hi]
    exact ⟨rfl, rfl⟩
  cases h with
  | nil => exact ⟨[], .inl rfl, .nil⟩
  | keep hm hrest =>
    refine ⟨[], .inl rfl, .keep hm ?_⟩
    rw [Nat.add_comm]
    exact hrest.shift _ n hlater
  | @tag _ _ _ x cs out e hne hlen hm hrest =>
    -- only this one opens the text
    have hx := List.length_pos_iff.mpr hne
    have hshifted := hrest.shift (fun _ o => (Block.paragraphAt o, ())) n
      fun i s e u hi => hlater i s e u (by omega)
    rw [Nat.zero_add, Nat.add_comm] at hshifted
    refine ⟨['\n'], .inr rfl, ?_⟩
    rw [← List.append_assoc, ← chars_paragraphAt hn]
    exact .tag hne hlen hm hshifted

/-- Behind a text a paragraph that would open it starts a line. -/
theorem apply_paragraph_behind (config : RenderConfig) (t : StyledText) (hne : front.text ≠ [])
    (hq : paragraph.pattern.Quiet front.text) : ∃ gap, (gap = [] ∨ gap = ['\n']) ∧
      paragraph.apply config (front ++ t) = front ++ (.plain gap ++ paragraph.apply config t) := by
  have hpos : 0 < front.chars.length := by
    rwa [← StyledText.length_text, List.length_pos_iff]
  have hv : paragraph ≠ verse := by decide
  obtain ⟨gap, hgap, hrest⟩ := passes_paragraph_behind hpos (passes_apply hv config t)
  refine ⟨gap, hgap, ?_⟩
  rw [StyledText.text_eq_map_chars] at hq
  rw [← Nat.zero_add front.chars.length] at hrest
  have hall := hrest.quiet_append hq
  rw [← StyledText.chars_append] at hall
  rw [apply_eq_of_passes hv hall, StyledText.eq_iff_chars]
  simp

/-- A text that ends a line says the same of the line after it as no text does. -/
theorem needsLeadingBreak_append {x y : List Char} (hx : x.getLast? = some '\n') :
    Poetry.needsLeadingBreak (x ++ y) = Poetry.needsLeadingBreak y := by
  obtain ⟨x, rfl⟩ : ∃ z, x = z ++ ['\n'] := by
    rcases x.eq_nil_or_concat with rfl | ⟨z, c, rfl⟩
    · cases hx
    · rw [List.concat_eq_append, List.getLast?_concat] at hx
      exact ⟨z, by rw [Option.some.inj hx, List.concat_eq_append]⟩
  unfold Poetry.needsLeadingBreak
  rw [List.reverse_append, List.dropWhile_append]
  cases hy : y.reverse.dropWhile (· == ' ') with
  | nil => simp
  | cons c cs => simp

theorem apply_poeticLine_behind (hend : front.text.getLast? = some '\n')
    (hq : poeticLine.pattern.Quiet front.text) :
    poeticLine.apply config (front ++ t) = front ++ poeticLine.apply config t := by
  refine apply_behind (by decide) (by decide) hq fun i e u => ?_
  have htake : (front ++ t).text.take (i + front.chars.length) = front.text ++ t.text.take i := by
    rw [StyledText.text_append, ← StyledText.length_text, Nat.add_comm, List.take_length_add_append]
  have hdrop : (front ++ t).text.drop (i + front.chars.length + e.length) =
      t.text.drop (i + e.length) := by
    rw [StyledText.text_append, ← StyledText.length_text, Nat.add_right_comm, Nat.add_comm,
      List.drop_length_add_append]
  simp only [rule, Poetry.lineAt, Tag.Match.span, htake, hdrop, needsLeadingBreak_append hend]
  rfl

/-! ## The verse stage -/

/-- What the verse stage puts before all text when these verses were found. -/
def labelsBefore (config : RenderConfig) (found : VerseSet) : StyledText :=
  if config.renderVerses then missingLabels config found else ∅

theorem apply_verse_eq {found : VerseSet} {t : StyledText} {out : List StyledChar}
    (h : Passes .verse (verseAt config) 0 ∅ t.chars out found) :
    verse.apply config t = labelsBefore config found ++ .ofChars out := by
  obtain ⟨htext, hfound⟩ := h.rewritten_eq
  rw [apply_verse, verseOutput, htext, hfound, labelsBefore]
  cases config.renderVerses with
  | true => rfl
  | false => exact (StyledText.empty_append _).symm

/-- Text without verses has the labels of all that are expected before it. -/
theorem apply_verse_of_quiet (config : RenderConfig) (h : verse.pattern.Quiet t.text) :
    verse.apply config t = labelsBefore config ∅ ++ t := by
  rw [StyledText.text_eq_map_chars] at h
  rw [apply_verse_eq (Rewrites.of_quiet h).passes, StyledText.ofChars_chars]

/-- The labels of the verses that were not found come before the text in front. -/
theorem exists_apply_verse_behind (config : RenderConfig) (t : StyledText)
    (hq : verse.pattern.Quiet front.text) :
    ∃ found rest, verse.apply config (front ++ t) = labelsBefore config found ++ (front ++ rest) ∧
      verse.apply config t = labelsBefore config found ++ rest := by
  obtain ⟨out, found, h⟩ := verse.exists_passes (verseAt config) 0 ∅ t.chars
  refine ⟨found, .ofChars out, ?_, apply_verse_eq h⟩
  have hshifted := h.shift (verseAt config) front.chars.length fun _ _ _ _ _ => rfl
  rw [StyledText.text_eq_map_chars] at hq
  have hall := hshifted.quiet_append hq
  rw [← StyledText.chars_append] at hall
  rw [apply_verse_eq hall]
  congr 1
  rw [StyledText.eq_iff_chars]
  simp

end Stage

end Passage
