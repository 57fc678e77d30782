import Passage.Proofs.Poetry.Origins
import Passage.Proofs.Render.Hoist
import Passage.Proofs.Style.Regions
import Passage.Proofs.Styled.Targets

/-! Which characters a render marks as normal. The stages before the poetic lines mark none, nor do
they make anything that can be tapped. The pass over poetic lines marks their contents
(`normals_apply_poeticLine`). The later stages mark nothing more: what they write is unstyled, or a
label, or a glyph, or text of the tag with other attributes added (`Modest`). So what is marked at
the end was the content of a poetic line, and no tap target is marked (`normals_afterStages`). -/

namespace Passage

/-- The characters that are marked as normal. -/
def normals (cs : List StyledChar) : List Char :=
  (cs.filter fun c => .normal ∈ c.2).map Prod.fst

theorem normals_append (cs ds : List StyledChar) :
    normals (cs ++ ds) = normals cs ++ normals ds := by
  rw [normals, List.filter_append, List.map_append]
  rfl

theorem normals_eq_nil {cs : List StyledChar} (h : ∀ c ∈ cs, .normal ∉ c.2) : normals cs = [] := by
  rw [normals, List.filter_eq_nil_iff.mpr]
  · rfl
  · intro c hc
    simpa using h c hc

theorem normals_of_forall {cs : List StyledChar} (h : ∀ c ∈ cs, .normal ∈ c.2) :
    normals cs = cs.map Prod.fst := by
  rw [normals, List.filter_eq_self.mpr]
  intro c hc
  simpa using h c hc

theorem StyleSet.normal_mem_insertAll_iff {s : StyleSet} {attributes : List Attribute}
    (ha : .normal ∉ attributes) : .normal ∈ s.insertAll attributes ↔ .normal ∈ s := by
  rw [StyleSet.mem_insertAll]
  exact ⟨fun h => h.resolve_right ha, .inl⟩

theorem StyleSet.normal_notMem_ofList {attributes : List Attribute} (ha : .normal ∉ attributes) :
    .normal ∉ StyleSet.ofList attributes := by
  rw [StyleSet.ofList, StyleSet.normal_mem_insertAll_iff ha]
  exact StyleSet.not_mem_empty

/-! ## Before the poetic lines -/

/-- Neither marked as normal nor to be tapped. -/
structure StyleSet.Clear (s : StyleSet) : Prop where
  not_normal : .normal ∉ s
  regions : s.regions = []

/-- All of the text is neither marked as normal nor to be tapped. -/
def StyledText.Clear (t : StyledText) : Prop :=
  ∀ c ∈ t.chars, c.2.Clear

namespace StyledText.Clear

variable {t u : StyledText}

theorem empty : (∅ : StyledText).Clear :=
  fun _ hc => absurd hc List.not_mem_nil

theorem plain (cs : List Char) : (StyledText.plain cs).Clear := by
  rw [Clear, chars_plain]
  exact List.forall_mem_map.mpr fun _ _ => ⟨StyleSet.not_mem_empty, rfl⟩

theorem append (ht : t.Clear) (hu : u.Clear) : (t ++ u).Clear := by
  rw [Clear, chars_append]
  exact List.forall_mem_append.mpr ⟨ht, hu⟩

theorem addStyles (h : t.Clear) {attributes : List Attribute} (hn : .normal ∉ attributes)
    (hr : ∀ a ∈ attributes, a.region? = none) : (t.addStyles attributes).Clear := by
  rw [Clear, chars_addStyles]
  refine List.forall_mem_map.mpr fun c hc => ?_
  obtain ⟨hnormal, hregions⟩ := h c hc
  refine ⟨?_, ?_⟩
  · rwa [StyleSet.normal_mem_insertAll_iff hn]
  · rw [StyleSet.regions_insertAll hr, hregions]

theorem upper (h : t.Clear) : (t.mapText Text.upper).Clear := by
  rw [Clear, chars_mapText_upper]
  refine List.forall_mem_flatMap.mpr fun c hc => List.forall_mem_map.mpr fun _ _ => ?_
  exact h c hc

theorem group {o : Occurrence} (h : o.tag.Clear) (i : Nat) : (o.group i).Clear := by
  rw [Occurrence.group]
  split
  · rw [Clear, chars_extract]
    intro c hc
    exact h c (List.mem_of_mem_drop (List.mem_of_mem_take hc))
  · exact empty

theorem heading (h : t.Clear) : (Block.heading t).Clear :=
  (h.addStyles (by decide) (by decide)).append (plain _)

end StyledText.Clear

def earlyStages : List Stage :=
  [.trim, .lineBreaks, .whitespace, .majorSectionHeading, .sectionHeading, .paragraph, .blankLine]

def lateStages : List Stage :=
  [.rightAlignedPoeticLine, .verse, .note, .chapterLabel, .selah]

section
variable {s : Stage} {t : StyledText} {config : RenderConfig}

theorem clear_rule (hs : s ∈ earlyStages) {o : Occurrence} (h : o.tag.Clear) :
    (s.rule config t o).Clear := by
  cases s with
  | trim => exact .empty
  | lineBreaks | whitespace | blankLine => exact .plain _
  | majorSectionHeading =>
    simp only [Stage.rule, Block.majorHeadingAt]
    split
    · exact .empty
    · exact (h.group 0).upper.heading
  | sectionHeading => exact (h.group 0).heading
  | paragraph => exact ((StyledText.Clear.plain _).append (h.group 0)).append (.plain _)
  | _ => exact absurd hs (by decide)

theorem clear_apply (hs : s ∈ earlyStages) (h : t.Clear) : (s.apply config t).Clear := by
  have hv : s ≠ .verse := by
    intro hverse
    rw [hverse] at hs
    exact absurd hs (by decide)
  exact (Stage.passes_apply hv config t).forall_mem h fun _ o ho => clear_rule hs ho

/-! ## The poetic lines -/

theorem clear_part (h : t.Clear) (s : Span) :
    ∀ c ∈ (t.chars.drop s.start).take (s.stop - s.start), c.2.Clear :=
  fun c hc => h c (List.mem_of_mem_drop (List.mem_of_mem_take hc))

theorem clear_put (cs : List Char) : ∀ c ∈ (Laid.put cs).map Laid.char, c.2.Clear := by
  rw [Laid.char_put]
  exact StyledText.Clear.plain cs

/-- What is copied as it is. -/
theorem clear_copy (h : t.Clear) (s : Span) :
    ∀ c ∈ (Laid.copy t [] s).map Laid.char, c.2.Clear := by
  rw [Laid.char_copy]
  exact List.forall_mem_map.mpr (clear_part h s)

/-- What is copied as a content. -/
theorem normals_copy (h : t.Clear) (s : Span) :
    normals ((Laid.copy t [.normal] s).map Laid.char) = Text.slice t.text s ∧
    ∀ c ∈ (Laid.copy t [.normal] s).map Laid.char, c.2.regions = [] := by
  have hall : ∀ c ∈ (Laid.copy t [.normal] s).map Laid.char,
      .normal ∈ c.2 ∧ c.2.regions = [] := by
    rw [Laid.char_copy]
    refine List.forall_mem_map.mpr fun c hc => ⟨?_, ?_⟩
    · exact StyleSet.mem_insertAll.mpr (.inr (List.mem_singleton_self _))
    · rw [StyleSet.regions_insertAll (by decide), (clear_part h s c hc).regions]
  refine ⟨?_, fun c hc => (hall c hc).2⟩
  rw [normals_of_forall fun c hc => (hall c hc).1, List.map_map]
  exact Laid.text_copy t [.normal] s

/-- What is written for a poetic line: its content is marked. -/
theorem normals_lineLaid (h : t.Clear) (m : Tag.Match) :
    normals ((Poetry.lineLaid t m).map Laid.char) = Text.slice t.text (Poetry.content m) ∧
    ∀ c ∈ (Poetry.lineLaid t m).map Laid.char, c.2.regions = [] := by
  obtain ⟨hmarked, huntapped⟩ := normals_copy h (Poetry.content m)
  have hnone (cs : List Char) : normals ((Laid.put cs).map Laid.char) = [] :=
    normals_eq_nil fun c hc => (clear_put cs c hc).not_normal
  have hput (cs : List Char) : ∀ c ∈ (Laid.put cs).map Laid.char, c.2.regions = [] :=
    fun c hc => (clear_put cs c hc).regions
  rw [Poetry.lineLaid]
  constructor
  · simp only [List.map_append, normals_append, hnone, hmarked, List.nil_append, List.append_nil]
  · simp only [List.map_append, List.forall_mem_append]
    exact ⟨⟨⟨hput _, hput _⟩, huntapped⟩, hput _⟩

/-- What is marked in text that is written for poetic lines are their contents, and nothing of it
can be tapped. -/
theorem normals_laidBetween (h : t.Clear) (start stop : Nat) (ms : List Tag.Match) :
    normals ((Poetry.laidBetween t start stop ms).map Laid.char) =
      (ms.flatMap fun m => Text.slice t.text (Poetry.content m)) ∧
    ∀ c ∈ (Poetry.laidBetween t start stop ms).map Laid.char, c.2.regions = [] := by
  have hgap (s : Span) : normals ((Laid.copy t [] s).map Laid.char) = [] ∧
      ∀ c ∈ (Laid.copy t [] s).map Laid.char, c.2.regions = [] :=
    ⟨normals_eq_nil fun c hc => (clear_copy h s c hc).not_normal,
      fun c hc => (clear_copy h s c hc).regions⟩
  induction ms generalizing start with
  | nil => exact hgap ⟨start, stop⟩
  | cons m ms ih =>
    obtain ⟨hnone, hbare⟩ := hgap ⟨start, m.start⟩
    obtain ⟨hline, huntapped⟩ := normals_lineLaid h m
    obtain ⟨hlater, hrest⟩ := ih m.span.stop
    rw [Poetry.laidBetween, List.map_append, List.map_append, normals_append, normals_append,
      hnone, hline, hlater]
    refine ⟨rfl, ?_⟩
    exact List.forall_mem_append.mpr ⟨List.forall_mem_append.mpr ⟨hbare, huntapped⟩, hrest⟩

/-- The pass over poetic lines marks their contents and makes no tap targets. -/
theorem normals_apply_poeticLine (config : RenderConfig) (h : t.Clear) :
    normals (Stage.poeticLine.apply config t).chars =
      ((Poetry.lines t.text).flatMap fun m => Text.slice t.text (Poetry.content m)) ∧
    (Stage.poeticLine.apply config t).Untapped := by
  rw [StyledText.Untapped, ← Poetry.char_laid config t]
  exact normals_laidBetween h 0 t.text.length (Poetry.lines t.text)

end

/-! ## After the poetic lines -/

/-- No tap target is marked as normal. -/
def StyleSet.Settled (s : StyleSet) : Prop :=
  s.regions ≠ [] → .normal ∉ s

/-- What is written for some text marks nothing that is not marked there, and no tap target if none
is marked there. -/
structure Modest (cs out : List StyledChar) : Prop where
  normals_sublist : (normals out).Sublist (normals cs)
  settled : (∀ c ∈ cs, c.2.Settled) → ∀ c ∈ out, c.2.Settled

namespace Modest

variable {cs cs' out out' : List StyledChar}

theorem refl (cs : List StyledChar) : Modest cs cs :=
  ⟨.refl _, id⟩

theorem trans (h : Modest cs out) (h' : Modest out out') : Modest cs out' :=
  ⟨h'.normals_sublist.trans h.normals_sublist, fun hcs => h'.settled (h.settled hcs)⟩

theorem append (h : Modest cs out) (h' : Modest cs' out') :
    Modest (cs ++ cs') (out ++ out') := by
  constructor
  · rw [normals_append, normals_append]
    exact h.normals_sublist.append h'.normals_sublist
  · intro hcs
    obtain ⟨hfront, hback⟩ := List.forall_mem_append.mp hcs
    exact List.forall_mem_append.mpr ⟨h.settled hfront, h'.settled hback⟩

/-- Text in which nothing is marked may be written anywhere. -/
theorem of_not_normal (cs : List StyledChar) (h : ∀ c ∈ out, .normal ∉ c.2) : Modest cs out := by
  constructor
  · rw [normals_eq_nil h]
    exact List.nil_sublist _
  · intro _ c hc _
    exact h c hc

theorem append_left (h : ∀ c ∈ out, .normal ∉ c.2) (h' : Modest cs out') :
    Modest cs (out ++ out') :=
  (of_not_normal [] h).append h'

theorem of_sublist (h : out.Sublist cs) : Modest cs out := by
  constructor
  · exact (h.filter _).map _
  · intro hcs c hc
    exact hcs c (h.subset hc)

theorem restyle {attributes : List Attribute} (hn : .normal ∉ attributes)
    (hr : ∀ a ∈ attributes, a.region? = none) (cs : List StyledChar) :
    Modest cs (cs.map fun c => (c.1, c.2.insertAll attributes)) := by
  have hnormal (s : StyleSet) : .normal ∈ s.insertAll attributes ↔ .normal ∈ s :=
    StyleSet.normal_mem_insertAll_iff hn
  constructor
  · rw [normals, normals, List.filter_map, List.map_map]
    simp only [Function.comp_def, hnormal]
    exact .refl _
  · intro hcs
    refine List.forall_mem_map.mpr fun c hc hregions => ?_
    rw [StyleSet.regions_insertAll hr] at hregions
    rw [hnormal]
    exact hcs c hc hregions

end Modest

theorem StyledText.normal_notMem_styled {attributes : List Attribute} (ha : .normal ∉ attributes)
    (cs : List Char) : ∀ c ∈ (StyledText.styled cs (.ofList attributes)).chars, .normal ∉ c.2 := by
  rw [StyledText.chars_styled]
  exact List.forall_mem_map.mpr fun _ _ => StyleSet.normal_notMem_ofList ha

theorem StyledText.normal_notMem_plain (cs : List Char) :
    ∀ c ∈ (StyledText.plain cs).chars, .normal ∉ c.2 :=
  StyledText.normal_notMem_styled List.not_mem_nil cs

theorem modest_group (o : Occurrence) (i : Nat) : Modest o.tag.chars (o.group i).chars := by
  rw [Occurrence.group]
  split
  · rw [StyledText.chars_extract]
    exact .of_sublist ((List.take_sublist _ _).trans (List.drop_sublist _ _))
  · exact .of_sublist (List.nil_sublist _)

theorem modest_addStyles {attributes : List Attribute} (hn : .normal ∉ attributes)
    (hr : ∀ a ∈ attributes, a.region? = none) (u : StyledText) :
    Modest u.chars (u.addStyles attributes).chars := by
  rw [StyledText.chars_addStyles]
  exact .restyle hn hr u.chars

theorem modest_oppositeLine (o : Occurrence) :
    Modest o.tag.chars (Block.oppositeLine (o.group 0)).chars := by
  rw [Block.oppositeLine, StyledText.chars_append]
  refine .append_left (StyledText.normal_notMem_plain _) ?_
  exact (modest_group o 0).trans (modest_addStyles (by decide) (by decide) _)

theorem modest_noteAt (o : Occurrence) : Modest o.tag.chars (noteAt o).chars := by
  refine .of_not_normal _ ?_
  rw [noteAt]
  split
  · exact StyledText.normal_notMem_styled (by simp) _
  · exact StyledText.normal_notMem_plain _

/-! ### Verses -/

theorem normal_notMem_render (m : VerseMarker) (tappable : Bool) :
    ∀ c ∈ (m.render tappable).chars, .normal ∉ c.2 := by
  have ha : .normal ∉ (if tappable then [Attribute.bold, .clickable m.region] else [.bold]) := by
    cases tappable <;> simp
  rw [VerseMarker.render, StyledText.chars_append]
  exact List.forall_mem_append.mpr
    ⟨StyledText.normal_notMem_styled ha m.label, StyledText.normal_notMem_plain _⟩

/-- A verse tag is kept without its styles, or left out, or replaced by a label. -/
theorem verseAt_answer (config : RenderConfig) (found : VerseSet) (o : Occurrence) :
    (verseAt config found o).1 = o.raw ∨ (verseAt config found o).1 = ∅ ∨
      ∃ m, (verseAt config found o).1 = verseLabel config m := by
  unfold verseAt
  split
  · split
    · exact .inl rfl
    · rename_i m _
      split
      · exact .inr (.inl rfl)
      · by_cases hm : config.expected.admits m = true
        · exact .inr (.inr ⟨m, if_pos hm⟩)
        · exact .inr (.inl (if_neg hm))
  · exact .inr (.inl rfl)

theorem modest_verseAt (config : RenderConfig) (found : VerseSet) (o : Occurrence) :
    Modest o.tag.chars (verseAt config found o).1.chars := by
  refine .of_not_normal _ ?_
  rcases verseAt_answer config found o with hraw | hnone | ⟨m, hlabel⟩
  · rw [hraw]
    exact StyledText.normal_notMem_plain _
  · rw [hnone]
    exact fun _ hc => absurd hc List.not_mem_nil
  · rw [hlabel, verseLabel]
    split
    · rw [StyledText.chars_append]
      exact List.forall_mem_append.mpr
        ⟨StyledText.normal_notMem_plain _, normal_notMem_render m _⟩
    · exact normal_notMem_render m _

theorem normal_notMem_labelsBefore (config : RenderConfig) (found : VerseSet) :
    ∀ c ∈ (Stage.labelsBefore config found).chars, .normal ∉ c.2 := by
  rw [Stage.labelsBefore]
  split
  · rw [missingLabels, StyledText.chars_concat]
    exact List.forall_mem_flatMap.mpr
      (List.forall_mem_map.mpr fun n _ => normal_notMem_render (.single n) _)
  · exact fun _ hc => absurd hc List.not_mem_nil

/-! ### Passes and stages -/

/-- Modest answers make a modest pass. -/
theorem Passes.modest {σ : Type} {p : Tag.Pattern} {rule : σ → Occurrence → StyledText × σ}
    {offset : Nat} {s s' : σ} {cs out : List StyledChar} (h : Passes p rule offset s cs out s')
    (hrule : ∀ s o, Modest o.tag.chars (rule s o).1.chars) : Modest cs out := by
  induction h with
  | nil => exact .refl []
  | @keep _ _ _ c _ _ _ _ ih => exact (Modest.refl [c]).append ih
  | @tag offset s _ x _ _ e _ _ _ _ ih =>
    have htag := hrule s ⟨⟨offset, e⟩, .ofChars x⟩
    rw [StyledText.chars_ofChars] at htag
    exact htag.append ih

section
variable {s : Stage} {t : StyledText} {config : RenderConfig}

theorem modest_rule (hs : s ∈ lateStages) (hv : s ≠ .verse) (o : Occurrence) :
    Modest o.tag.chars (s.rule config t o).chars := by
  cases s with
  | rightAlignedPoeticLine | selah => exact modest_oppositeLine o
  | verse => exact absurd rfl hv
  | note => exact modest_noteAt o
  | chapterLabel => exact (modest_group o 0).trans (modest_addStyles (by decide) (by decide) _)
  | _ => exact absurd hs (by decide)

theorem modest_apply (hs : s ∈ lateStages) : Modest t.chars (s.apply config t).chars := by
  by_cases hv : s = .verse
  · obtain ⟨out, found, hpass⟩ := Stage.verse.exists_passes (verseAt config) 0 ∅ t.chars
    rw [hv, Stage.apply_verse_eq hpass, StyledText.chars_append, StyledText.chars_ofChars]
    exact .append_left (normal_notMem_labelsBefore config found)
      (hpass.modest (modest_verseAt config))
  · exact (Stage.passes_apply hv config t).modest fun _ o => modest_rule hs hv o

end

/-! ## All stages -/

theorem clear_afterStages_early (config : RenderConfig) (text : List Char) :
    (afterStages config (.plain text) earlyStages).Clear :=
  afterStages_induction (P := StyledText.Clear) (fun _ hs _ h => clear_apply hs h) (.plain text)

theorem modest_afterStages_late (config : RenderConfig) (t : StyledText) :
    Modest t.chars (afterStages config t lateStages).chars :=
  afterStages_induction (P := fun u => Modest t.chars u.chars)
    (fun _ hs _ h => h.trans (modest_apply hs)) (.refl _)

/-- **What a render marks as normal is taken from the contents of the poetic lines**, those of the
text in which they are looked for; and no tap target is marked. -/
theorem normals_afterStages (config : RenderConfig) (text : List Char) :
    (normals (afterStages config (.plain text) Stage.all).chars).Sublist
      ((Poetry.lines (afterStages config (.plain text) earlyStages).text).flatMap fun m =>
        Text.slice (afterStages config (.plain text) earlyStages).text (Poetry.content m)) ∧
    ∀ c ∈ (afterStages config (.plain text) Stage.all).chars, c.2.Settled := by
  have hall : Stage.all = earlyStages ++ .poeticLine :: lateStages := rfl
  have hearly := clear_afterStages_early config text
  rw [hall, afterStages_append]
  generalize afterStages config (.plain text) earlyStages = t at hearly ⊢
  obtain ⟨hnormals, huntapped⟩ := normals_apply_poeticLine config hearly
  have hlate := modest_afterStages_late config (Stage.poeticLine.apply config t)
  rw [afterStages, ← hnormals]
  refine ⟨hlate.normals_sublist, hlate.settled fun c hc hregions => ?_⟩
  exact absurd (huntapped c hc) hregions

end Passage
