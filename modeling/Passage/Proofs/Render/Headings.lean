import Passage.Proofs.Layout.Blanks
import Passage.Proofs.Render.Hoist
import Passage.Proofs.Render.InlineTags
import Passage.Proofs.Style.Regions
import Passage.Proofs.Styled.Targets
import Passage.Proofs.Verse.Coverage

/-! Headings with tags in their content. The stage of major headings puts all that it finds in upper
case, before the stages of verses and notes look for their tags: so these stand in the line as they
are written, in upper case, and nothing in it can be tapped. In the other heading a verse tag is
replaced by its label and a note by its glyph. So a major heading that is shown is the other one in
upper case, with the same tap targets, exactly if its content has no tags (`heading_targets`). -/

namespace Passage

open Document (para tagStages)

/-! ## Contents of headings -/

/-- Text without tags. -/
structure Words where
  text : List Char
  noTag : '<' ∉ text

/-- What a heading holds: words, and tags with the words after each. -/
structure HeadingContent where
  words : Words
  rest : List (InlineTag × Words)

def restSource (rest : List (InlineTag × Words)) : List Char :=
  rest.flatMap fun p => p.1.source ++ p.2.text

def Words.shrunk (w : Words) : Words :=
  ⟨Text.shrink w.text, mt (Text.mem_shrink_of_not_blank rfl).mp w.noTag⟩

def Words.dropBlanks (w : Words) : Words :=
  ⟨w.text.dropWhile Text.isBlank, fun h => w.noTag ((List.dropWhile_sublist _).subset h)⟩

namespace HeadingContent

def source (c : HeadingContent) : List Char :=
  c.words.text ++ restSource c.rest

def shrunk (c : HeadingContent) : HeadingContent :=
  ⟨c.words.shrunk, c.rest.map fun p => (p.1.shrunk, p.2.shrunk)⟩

/-- The content as the stages of blocks find it. -/
def tidied (c : HeadingContent) : HeadingContent :=
  ⟨c.shrunk.words.dropBlanks, c.shrunk.rest⟩

end HeadingContent

theorem stops_restSource (rest : List (InlineTag × Words)) :
    Tag.Stops Text.isBlank (restSource rest) := by
  cases rest with
  | nil => exact fun _ hc => absurd hc (by simp [restSource])
  | cons p rest =>
    obtain ⟨tail, htail⟩ := p.1.exists_source_eq
    rw [restSource, List.flatMap_cons, htail]
    exact Tag.stops_cons rfl _

theorem shrink_restSource (rest : List (InlineTag × Words)) :
    Text.shrink (restSource rest) = restSource (rest.map fun p => (p.1.shrunk, p.2.shrunk)) := by
  induction rest with
  | nil => rfl
  | cons p rest ih =>
    have hstops := stops_restSource rest
    simp only [restSource] at ih hstops ⊢
    rw [List.flatMap_cons, List.map_cons, List.flatMap_cons, List.append_assoc,
      p.1.shrink_source_append, Text.shrink_append _ hstops, ih, List.append_assoc]
    rfl

namespace HeadingContent

variable (c : HeadingContent)

theorem source_shrunk : c.shrunk.source = Text.shrink c.source := by
  rw [source, source, Text.shrink_append _ (stops_restSource c.rest), shrink_restSource]
  rfl

theorem source_tidied : c.tidied.source = c.shrunk.source.dropWhile Text.isBlank := by
  rw [source, source, Tag.dropWhile_append_of_stops (stops_restSource c.shrunk.rest)]
  rfl

/-- No block starts in the content, and none ends. -/
theorem free_block : Document.Free 'p' c.source := by
  refine .append (.of_noTag c.words.noTag) (Tag.Nowhere.flatMap fun p _ => ?_)
  exact p.1.free_block.append (.of_noTag p.2.noTag)

theorem endsFirst_blockEnd : Tag.EndsFirst Tag.blockEnd c.source := by
  have hnowhere : Tag.Nowhere (Text.dropLiteral? Tag.blockEnd) c.source := by
    refine .append (.of_not_mem c.words.noTag) (Tag.Nowhere.flatMap fun p _ => ?_)
    exact p.1.nowhere_blockEnd.append (.of_not_mem p.2.noTag)
  exact .of_beforeLiteral? (Tag.beforeLiteral?_append hnowhere (List.cons_ne_nil _ _) [])

end HeadingContent

/-! ## What stands for the tags -/

/-- The labels of the expected verses that no marker of a list has, which come before all text. -/
def frontLabels (config : RenderConfig) (seen : List VerseMarker) : StyledText :=
  if config.renderVerses then
    .concat ((config.expected.absent seen).map fun n =>
      (VerseMarker.single n).render config.verseHandler)
  else ∅

/-- A verse tag is shown after those of `seen` if verses are rendered at all, and its verses are
expected and none of them was seen before. -/
def isShown (config : RenderConfig) (seen : List VerseMarker) (m : VerseMarker) : Bool :=
  config.renderVerses && !seen.any m.meets && config.expected.admits m

def verseShown (config : RenderConfig) (seen : List VerseMarker) (m : VerseMarker) : StyledText :=
  if isShown config seen m then verseLabel config m else ∅

/-- A marker that meets one seen before is not counted. -/
def seenWith (seen : List VerseMarker) (m : VerseMarker) : List VerseMarker :=
  if seen.any m.meets then seen else m :: seen

/-- The characters that can be tapped, each with its target. -/
def StyledText.tappable (t : StyledText) : List (Region × Char) :=
  t.chars.filterMap fun c => c.2.regions.head?.map (·, c.1)

namespace InlineTag

def seenAfter (seen : List VerseMarker) : InlineTag → List VerseMarker
  | verse t => seenWith seen t.marker
  | note _ => seen

/-- What stands for the tag after those of `seen`, if `glyph` stands for a note. -/
def shown (glyph : NoteTag → StyledText) (config : RenderConfig) (seen : List VerseMarker) :
    InlineTag → StyledText
  | verse t => verseShown config seen t.marker
  | note t => glyph t

/-- What can be tapped of the tag: its label if there is a handler, its glyph. -/
def tappable (config : RenderConfig) (seen : List VerseMarker) : InlineTag → List (Region × Char)
  | verse t =>
    if isShown config seen t.marker && config.verseHandler then
      t.marker.label.map (t.marker.region, ·)
    else []
  | note t => t.marker.glyph.map (t.marker.region, ·)

end InlineTag

def headingText (cs : List Char) : StyledText :=
  .styled cs (.ofList Block.headingStyles)

def seenAfter (seen : List VerseMarker) : List (InlineTag × Words) → List VerseMarker
  | [] => seen
  | p :: rest => seenAfter (p.1.seenAfter seen) rest

/-- Tags one after the other, each with the words after it. -/
def restShown (glyph : NoteTag → StyledText) (config : RenderConfig) (seen : List VerseMarker) :
    List (InlineTag × Words) → StyledText
  | [] => ∅
  | p :: rest => p.1.shown glyph config seen ++ headingText p.2.text ++
      restShown glyph config (p.1.seenAfter seen) rest

def restTappable (config : RenderConfig) (seen : List VerseMarker) :
    List (InlineTag × Words) → List (Region × Char)
  | [] => []
  | p :: rest => p.1.tappable config seen ++ restTappable config (p.1.seenAfter seen) rest

/-- The line of a heading, with labels for verse tags and glyphs for notes. -/
def HeadingContent.line (config : RenderConfig) (c : HeadingContent) : StyledText :=
  headingText c.words.text ++ restShown (·.marker.render) config [] c.rest

/-- The markers that the heading counts. -/
def HeadingContent.seen (c : HeadingContent) : List VerseMarker :=
  seenAfter [] c.rest

section
variable {config : RenderConfig} {found : VerseSet} {seen : List VerseMarker}

/-- The set has the numbers of the markers, if verses are rendered at all. -/
def Counts (config : RenderConfig) (found : VerseSet) (seen : List VerseMarker) : Prop :=
  config.renderVerses = true → ∀ n, n ∈ found ↔ ∃ m ∈ seen, n ∈ m

theorem counts_nil (config : RenderConfig) : Counts config ∅ [] := by
  intro _ n
  simp

theorem Counts.labelsBefore_eq (h : Counts config found seen) :
    Stage.labelsBefore config found = frontLabels config seen := by
  rw [Stage.labelsBefore, frontLabels]
  split
  · rename_i hr
    rw [missingLabels, ExpectedVerses.missing_eq_absent _ (h hr)]
  · rfl

/-- The stage of verses answers the tag as told. -/
theorem VerseTag.exists_verseAt_eq (t : VerseTag) (h : Counts config found seen)
    (styles : StyleSet) (offset : Nat) : ∃ more, Counts config more (seenWith seen t.marker) ∧
      verseAt config found ⟨⟨offset, Tag.extentFrom 0 t.parts⟩, .styled t.source styles⟩ =
        (verseShown config seen t.marker, more) := by
  cases hr : config.renderVerses with
  | false =>
    refine ⟨found, fun hr' => ?_, ?_⟩
    · rw [hr] at hr'
      cases hr'
    · rw [verseAt, verseShown, isShown, hr]
      rfl
  | true =>
    have hread : VerseMarker.parse (Occurrence.group
        ⟨⟨offset, Tag.extentFrom 0 t.parts⟩, .styled t.source styles⟩ 0).text = .ok t.marker := by
      rw [t.group_number, StyledText.text_styled, t.reads]
    rcases verseAt_cases hr (h hr) _ with
      ⟨e, he, -⟩ | ⟨m, hm, ⟨hmeets, hv⟩ | ⟨hnew, more, hmore, hv⟩⟩
    · rw [hread] at he
      cases he
    · obtain rfl := Except.ok.inj (hread.symm.trans hm)
      refine ⟨found, ?_, ?_⟩
      · rw [seenWith, if_pos hmeets]
        exact h
      · rw [hv, verseShown, isShown, hr, hmeets]
        rfl
    · obtain rfl := Except.ok.inj (hread.symm.trans hm)
      refine ⟨more, ?_, ?_⟩
      · rw [seenWith, hnew]
        exact fun _ => hmore
      · rw [hv, verseShown, isShown, hr, hnew]
        rfl

end

/-! ### No tag is left -/

theorem noTag_verseLabel (config : RenderConfig) (m : VerseMarker) :
    '<' ∉ (verseLabel config m).text := by
  have hrender : '<' ∉ (m.render config.verseHandler).text := by
    rw [VerseMarker.render, StyledText.text_append, StyledText.text_styled, StyledText.text_plain,
      List.mem_append, not_or]
    exact ⟨fun h => absurd (VerseMarker.isLabelChar_of_mem_label h) (by decide), by decide⟩
  unfold verseLabel
  split
  · rw [StyledText.text_append, StyledText.text_plain, List.mem_append, not_or]
    exact ⟨by decide, hrender⟩
  · exact hrender

theorem mem_frontLabels {config : RenderConfig} {seen : List VerseMarker} {c : Char}
    (h : c ∈ (frontLabels config seen).text) : VerseMarker.isLabelChar c = true ∨ c = ' ' := by
  unfold frontLabels at h
  split at h
  · exact mem_text_labels h
  · cases h

theorem noTag_frontLabels (config : RenderConfig) (seen : List VerseMarker) :
    '<' ∉ (frontLabels config seen).text := by
  intro h
  rcases mem_frontLabels h with h | h <;> exact absurd h (by decide)

theorem lineFeed_notMem_frontLabels (config : RenderConfig) (seen : List VerseMarker) :
    '\n' ∉ (frontLabels config seen).text := by
  intro h
  rcases mem_frontLabels h with h | h <;> exact absurd h (by decide)

theorem noTag_verseShown (config : RenderConfig) (seen : List VerseMarker) (m : VerseMarker) :
    '<' ∉ (verseShown config seen m).text := by
  unfold verseShown
  split
  · exact noTag_verseLabel config m
  · exact List.not_mem_nil

theorem NoteTag.noTag_render (t : NoteTag) : '<' ∉ t.marker.render.text := by
  have hkind : '<' ∉ t.marker.kind.glyph := by
    cases t.marker.kind <;> decide
  rw [NoteMarker.render, StyledText.text_styled, NoteMarker.glyph]
  split
  · exact hkind
  · exact hkind
  · exact hkind
  · exact fun h => t.noTag (NoteMarker.caller_subset t.reads h)

theorem noTag_restShown {glyph : NoteTag → StyledText} (hglyph : ∀ t, '<' ∉ (glyph t).text)
    (config : RenderConfig) (seen : List VerseMarker) (rest : List (InlineTag × Words)) :
    '<' ∉ (restShown glyph config seen rest).text := by
  induction rest generalizing seen with
  | nil => exact List.not_mem_nil
  | cons p rest ih =>
    have hshown : '<' ∉ (p.1.shown glyph config seen).text := by
      cases p.1 with
      | verse t => exact noTag_verseShown config seen t.marker
      | note t => exact hglyph t
    rw [restShown, StyledText.text_append, StyledText.text_append, headingText,
      StyledText.text_styled]
    exact List.not_mem_append (List.not_mem_append hshown p.2.noTag) (ih _)

theorem HeadingContent.noTag_line (config : RenderConfig) (c : HeadingContent) :
    '<' ∉ (c.line config).text := by
  rw [line, StyledText.text_append, headingText, StyledText.text_styled]
  exact List.not_mem_append c.words.noTag (noTag_restShown NoteTag.noTag_render config [] c.rest)

/-! ### What can be tapped -/

namespace StyledText

variable {t u : StyledText}

theorem tappable_append (t u : StyledText) : (t ++ u).tappable = t.tappable ++ u.tappable := by
  rw [tappable, chars_append, List.filterMap_append]
  rfl

theorem Untapped.tappable_eq (h : t.Untapped) : t.tappable = [] := by
  refine List.filterMap_eq_nil_iff.mpr fun c hc => ?_
  rw [h c hc]
  rfl

theorem tappable_styled {styles : StyleSet} {region : Region} (h : styles.regions = [region])
    (cs : List Char) : (styled cs styles).tappable = cs.map (region, ·) := by
  rw [tappable, chars_styled, List.filterMap_map, ← List.filterMap_eq_map]
  congr 1
  funext c
  rw [Function.comp_apply, h]
  rfl

end StyledText

theorem untapped_headingText (cs : List Char) : (headingText cs).Untapped :=
  .styled rfl cs

theorem VerseMarker.tappable_render (m : VerseMarker) (tappable : Bool) :
    (m.render tappable).tappable = if tappable then m.label.map (m.region, ·) else [] := by
  have hspace : (StyledText.plain [' ']).tappable = [] := (StyledText.Untapped.plain _).tappable_eq
  rw [render, StyledText.tappable_append, hspace, List.append_nil]
  cases tappable with
  | true => exact StyledText.tappable_styled (StyleSet.regions_ofList_pair rfl m.region) m.label
  | false => exact (StyledText.Untapped.styled rfl m.label).tappable_eq

theorem tappable_shown (config : RenderConfig) (seen : List VerseMarker) (t : InlineTag) :
    (t.shown (·.marker.render) config seen).tappable = t.tappable config seen := by
  cases t with
  | note t => exact StyledText.tappable_styled (StyleSet.regions_ofList_pair rfl _) t.marker.glyph
  | verse t =>
    have hlabel : (verseLabel config t.marker).tappable =
        (t.marker.render config.verseHandler).tappable := by
      unfold verseLabel
      split
      · rw [StyledText.tappable_append, (StyledText.Untapped.plain _).tappable_eq, List.nil_append]
      · rfl
    rw [InlineTag.shown, verseShown, InlineTag.tappable]
    cases hs : isShown config seen t.marker with
    | true => exact hlabel.trans (t.marker.tappable_render config.verseHandler)
    | false => rfl

theorem HeadingContent.tappable_line (config : RenderConfig) (c : HeadingContent) :
    (c.line config).tappable = restTappable config [] c.rest := by
  have hrest (seen : List VerseMarker) (rest : List (InlineTag × Words)) :
      (restShown (·.marker.render) config seen rest).tappable = restTappable config seen rest := by
    induction rest generalizing seen with
    | nil => rfl
    | cons p rest ih =>
      rw [restShown, restTappable, StyledText.tappable_append, StyledText.tappable_append,
        tappable_shown, (untapped_headingText p.2.text).tappable_eq, List.append_nil, ih]
  rw [line, StyledText.tappable_append, (untapped_headingText c.words.text).tappable_eq, hrest]
  rfl

/-! ## The passes over verse tags and notes -/

theorem headingText_append (x y : List Char) :
    headingText (x ++ y) = headingText x ++ headingText y := by
  rw [StyledText.eq_iff_chars]
  simp [headingText]

theorem Words.free (w : Words) {k : Char} : Document.Free k (headingText w.text).text := by
  rw [headingText, StyledText.text_styled]
  exact .of_noTag w.noTag

theorem heading_plain (cs : List Char) :
    Block.heading (.plain cs) = headingText cs ++ .plain ['\n'] := by
  rw [Block.heading, StyledText.addStyles_plain, headingText]

/-- Text in which no tag of a stage starts. -/
theorem Rewrites.of_free {σ : Type} {s : Stage} (hs : s ∈ tagStages)
    {rule : σ → Occurrence → StyledText × σ} {t : StyledText}
    (h : Document.Free (Document.letter s) t.text) {offset : Nat} {state : σ} :
    Rewrites s.pattern rule offset state t.chars t.chars state := by
  refine .of_quiet ?_
  rw [← StyledText.text_eq_map_chars]
  exact Document.quiet_of_free hs h

section
variable {config : RenderConfig} {found : VerseSet} {seen : List VerseMarker}

/-- What the pass over verse tags makes of one tag: a note stands as it is written. -/
theorem InlineTag.exists_rewrites_verse (t : InlineTag) (h : Counts config found seen)
    (offset : Nat) : ∃ more, Counts config more (t.seenAfter seen) ∧
      Rewrites Stage.verse.pattern (verseAt config) offset found (headingText t.source).chars
        (t.shown (headingText ·.source) config seen).chars more := by
  cases t with
  | verse t =>
    obtain ⟨more, hmore, hv⟩ := t.exists_verseAt_eq h (.ofList Block.headingStyles) offset
    refine ⟨more, hmore, .of_takes (e := Tag.extentFrom 0 t.parts) ?_ ?_⟩
    · rw [← StyledText.text_eq_map_chars, headingText, StyledText.text_styled]
      exact t.takes
    · rw [StyledText.ofChars_chars]
      exact hv
  | note t =>
    refine ⟨found, h, .of_free (s := .verse) (by decide) ?_⟩
    rw [headingText, StyledText.text_styled]
    exact t.nowhere (fun _ => rfl) (fun _ => rfl) (fun _ => rfl) fun _ => rfl

theorem exists_rewrites_verse (rest : List (InlineTag × Words)) (h : Counts config found seen)
    (offset : Nat) : ∃ more, Counts config more (seenAfter seen rest) ∧
      Rewrites Stage.verse.pattern (verseAt config) offset found
        (headingText (restSource rest)).chars
        (restShown (headingText ·.source) config seen rest).chars more := by
  induction rest generalizing offset found seen with
  | nil => exact ⟨found, h, .nil⟩
  | cons p rest ih =>
    obtain ⟨tag, words⟩ := p
    obtain ⟨more, hmore, htag⟩ := tag.exists_rewrites_verse h offset
    -- offsets count the text as it was before the pass
    obtain ⟨last, hlast, hrest⟩ := ih hmore
      (offset + (headingText tag.source).chars.length + (headingText words.text).chars.length)
    refine ⟨last, hlast, ?_⟩
    rw [restSource, List.flatMap_cons, headingText_append, headingText_append, restShown,
      StyledText.chars_append, StyledText.chars_append, StyledText.chars_append,
      StyledText.chars_append]
    refine (htag.append (.of_free (s := .verse) (by decide) words.free)).append ?_
    rwa [List.length_append, ← Nat.add_assoc]

/-- What the pass over notes then makes of one. -/
theorem InlineTag.rewrites_note (config : RenderConfig) (seen : List VerseMarker) (t : InlineTag)
    (offset : Nat) : Rewrites Stage.note.pattern (fun _ o => (noteAt o, ())) offset ()
      (t.shown (headingText ·.source) config seen).chars
      (t.shown (·.marker.render) config seen).chars () := by
  cases t with
  | verse t =>
    have hverse := noTag_verseShown config seen t.marker
    exact .of_free (s := .note) (by decide) (.of_noTag hverse)
  | note n =>
    refine .of_takes (e := Tag.extentFrom 0 n.parts) ?_ ?_
    · rw [shown, ← StyledText.text_eq_map_chars, headingText, StyledText.text_styled]
      exact n.takes
    · rw [StyledText.ofChars_chars]
      exact congrArg (·, ()) (n.noteAt_eq (.ofList Block.headingStyles) offset)

theorem rewrites_note (config : RenderConfig) (seen : List VerseMarker)
    (rest : List (InlineTag × Words)) (offset : Nat) :
    Rewrites Stage.note.pattern (fun _ o => (noteAt o, ())) offset ()
      (restShown (headingText ·.source) config seen rest).chars
      (restShown (·.marker.render) config seen rest).chars () := by
  induction rest generalizing offset seen with
  | nil => exact .nil
  | cons p rest ih =>
    obtain ⟨tag, words⟩ := p
    have htag := tag.rewrites_note config seen offset
    rw [restShown, restShown, StyledText.chars_append, StyledText.chars_append,
      StyledText.chars_append, StyledText.chars_append]
    exact (htag.append (.of_free (s := .note) (by decide) words.free)).append (ih _ _)

end

/-- What a pass makes of tags, between text in front without any and the end of the line. -/
theorem Rewrites.line {σ : Type} {s : Stage} (hs : s ∈ tagStages)
    {rule : σ → Occurrence → StyledText × σ} {front t u : StyledText} {state state' : σ}
    (hfront : Document.Free (Document.letter s) front.text)
    (h : Rewrites s.pattern rule front.chars.length state t.chars u.chars state') :
    Rewrites s.pattern rule 0 state (front ++ t ++ .plain ['\n']).chars
      (front ++ u ++ .plain ['\n']).chars state' := by
  have hend : Document.Free (Document.letter s) (StyledText.plain ['\n']).text :=
    .of_noTag (by decide)
  rw [StyledText.chars_append, StyledText.chars_append, StyledText.chars_append,
    StyledText.chars_append]
  refine ((Rewrites.of_free hs hfront).append ?_).append (.of_free hs hend)
  rwa [Nat.zero_add]

namespace HeadingContent

/-- The line after the pass over verse tags. -/
theorem apply_verse (config : RenderConfig) (c : HeadingContent) :
    Stage.verse.apply config (Block.heading (.plain c.source)) =
      frontLabels config c.seen ++ (headingText c.words.text ++
        restShown (headingText ·.source) config [] c.rest ++ .plain ['\n']) := by
  obtain ⟨found, hcounts, hrest⟩ := exists_rewrites_verse c.rest (counts_nil config)
    (headingText c.words.text).chars.length
  have hline := Rewrites.line (s := .verse) (by decide) c.words.free hrest
  rw [heading_plain, source, headingText_append, Stage.apply_verse_eq hline.passes,
    hcounts.labelsBefore_eq, StyledText.ofChars_chars]
  rfl

/-- The line after the passes over verse tags and notes. -/
theorem apply_note (config : RenderConfig) (c : HeadingContent) :
    Stage.note.apply config (Stage.verse.apply config (Block.heading (.plain c.source))) =
      frontLabels config c.seen ++ c.line config ++ .plain ['\n'] := by
  have hfront : Document.Free 'n' (frontLabels config c.seen ++ headingText c.words.text).text := by
    rw [StyledText.text_append]
    exact .append (.of_noTag (noTag_frontLabels config c.seen)) c.words.free
  have hline := Rewrites.line (s := .note) (by decide) hfront (rewrites_note config [] c.rest _)
  rw [apply_verse, ← StyledText.append_assoc, ← StyledText.append_assoc,
    Stage.apply_eq_of_passes (by decide) hline.passes, StyledText.ofChars_chars, line,
    StyledText.append_assoc (frontLabels config c.seen)]

end HeadingContent

/-! ## The other stages -/

section
variable {config : RenderConfig} {t : StyledText}

/-- Stages that find nothing, one after the other. -/
theorem afterStages_of_quiet {l : List Stage} (config : RenderConfig)
    (h : ∀ s ∈ l, s ≠ .verse ∧ s.pattern.Quiet t.text) : afterStages config t l = t := by
  refine afterStages_induction (P := fun u => u = t) (fun s hs u hu => ?_) rfl
  obtain ⟨hv, hq⟩ := h s hs
  rw [hu, Stage.apply_of_quiet hv config hq]

/-- Where no block starts, the stages of inline tags are all that do something. -/
theorem afterStages_laterStages_of_quiet (h : ∀ s ∈ blockStages, s.pattern.Quiet t.text) :
    afterStages config t laterStages =
      afterStages config t [.verse, .note, .chapterLabel, .selah] := by
  have hsplit : laterStages = blockStages ++ [.verse, .note, .chapterLabel, .selah] := rfl
  have hverse : .verse ∉ blockStages := by decide
  have hfront : afterStages config t blockStages = t :=
    afterStages_of_quiet config fun s hs => ⟨fun hv => hverse (hv ▸ hs), h s hs⟩
  rw [hsplit, afterStages_append, hfront]

/-- Where no tag starts, the stages after the one of verses do nothing. -/
theorem afterStages_of_silent {l : List Stage} (hl : ∀ s ∈ l, s ≠ .verse ∧ s ∈ tagStages)
    (config : RenderConfig) (h : Silent t.text) : afterStages config t l = t :=
  afterStages_of_quiet config fun s hs => ⟨(hl s hs).1, h s (hl s hs).2⟩

/-- After the passes over verse tags and notes no tag is left in a heading. -/
theorem HeadingContent.afterStages_heading (config : RenderConfig) (c : HeadingContent) :
    afterStages config (Block.heading (.plain c.source)) laterStages =
      frontLabels config c.seen ++ c.line config ++ .plain ['\n'] := by
  have hblock : Document.Free 'p' (Block.heading (.plain c.source)).text := by
    rw [text_heading]
    exact c.free_block.append (.of_noTag (by decide))
  have hletter : ∀ s ∈ blockStages, s ∈ tagStages ∧ Document.letter s = 'p' := by decide
  have hsilent : Silent (frontLabels config c.seen ++ c.line config ++ .plain ['\n']).text := by
    rw [StyledText.text_append, StyledText.text_append]
    exact ((Silent.of_noTag (noTag_frontLabels config c.seen)).append
      (.of_noTag (c.noTag_line config))).append (.of_noTag (by decide))
  rw [afterStages_laterStages_of_quiet fun s hs =>
    Document.quiet_of_free (hletter s hs).1 ((hletter s hs).2 ▸ hblock), afterStages, afterStages,
    apply_note]
  exact afterStages_of_silent (by decide) config hsilent

/-- Text without tags has the labels of all verses that are expected before it. -/
theorem afterStages_laterStages_of_silent (config : RenderConfig) (h : Silent t.text) :
    afterStages config t laterStages = frontLabels config [] ++ t := by
  have hblock : ∀ s ∈ blockStages, s ∈ tagStages := by decide
  have hboth : Silent (frontLabels config [] ++ t).text := by
    rw [StyledText.text_append]
    exact (Silent.of_noTag (noTag_frontLabels config [])).append h
  rw [afterStages_laterStages_of_quiet fun s hs => h s (hblock s hs), afterStages,
    Stage.apply_verse_of_quiet config (h .verse (by decide)), (counts_nil config).labelsBefore_eq]
  exact afterStages_of_silent (by decide) config hboth

end

/-! ## The stages of headings -/

/-- A block with all of its content before its closing tag. -/
theorem Tag.exists_block_para (style : List Char) {body : List Char}
    (h : Tag.EndsFirst Tag.blockEnd body) :
    ∃ opening, Tag.Block style opening (body.dropWhile Text.isBlank) ∧
      para style body = opening ++ body.dropWhile Text.isBlank ++ Tag.blockEnd := by
  have hgap : Tag.Blanks (body.takeWhile Text.isBlank) := fun _ hc => List.mem_takeWhile_imp hc
  rw [← List.takeWhile_append_dropWhile (p := Text.isBlank) (l := body),
    Tag.endsFirst_append_iff rfl hgap] at h
  refine ⟨_, ⟨.mk (a := [' ']) (b := []) ⟨List.cons_ne_nil _ _, Tag.isBlank_of_mem_space⟩
    (fun _ hc => absurd hc List.not_mem_nil) hgap, Tag.stops_dropWhile _ body, h⟩, ?_⟩
  conv_lhs => rw [← List.takeWhile_append_dropWhile (p := Text.isBlank) (l := body)]
  unfold para Tag.styleText
  rw [Tag.blockEnd_eq]
  simp

/-- A stage of blocks answers to a block that is all of the text with its content. -/
theorem Stage.exists_apply_para {s : Stage} {style : List Char} (hs : s.pattern = .para style)
    (hv : s ≠ .verse) (config : RenderConfig) {body : List Char}
    (h : Tag.EndsFirst Tag.blockEnd body) :
    ∃ o : Occurrence, o.found.start = 0 ∧ o.group 0 = .plain (body.dropWhile Text.isBlank) ∧
      s.apply config (.plain (para style body)) =
        s.rule config (.plain (para style body)) o := by
  obtain ⟨opening, hblock, hpara⟩ := Tag.exists_block_para style h
  generalize body.dropWhile Text.isBlank = content at hblock hpara ⊢
  have htakes : s.pattern.Takes (opening ++ content ++ Tag.blockEnd)
      (Tag.blockExtent opening content) := by
    rw [hs]
    refine ⟨List.append_ne_nil_of_right_ne_nil _ (List.cons_ne_nil _ _), ?_, fun atStart rest => ?_⟩
    · rw [List.append_assoc]
      rfl
    · rw [List.append_assoc, List.append_assoc]
      exact hblock.match?_eq atStart rest
  have hgroup : Occurrence.group ⟨⟨0, Tag.blockExtent opening content⟩,
      .plain (opening ++ content ++ Tag.blockEnd)⟩ 0 = .plain content := by
    refine Occurrence.group_styled ?_
    rw [List.length_append]
    rfl
  refine ⟨_, rfl, hgroup, ?_⟩
  rw [hpara]
  generalize opening ++ content ++ Tag.blockEnd = tag at htakes ⊢
  have hpass : Rewrites s.pattern (fun _ o => (s.rule config (.plain tag) o, ())) 0 ()
      (StyledText.plain tag).chars
      (s.rule config (.plain tag) ⟨⟨0, Tag.blockExtent opening content⟩,
        .ofChars (StyledText.plain tag).chars⟩).chars () := by
    refine .of_takes ?_ rfl
    rwa [← StyledText.text_eq_map_chars, StyledText.text_plain]
  rw [Stage.apply_eq_of_passes hv hpass.passes, StyledText.ofChars_chars, StyledText.ofChars_chars]

theorem untapped_heading (cs : List Char) : (Block.heading (.plain cs)).Untapped := by
  rw [Block.heading, StyledText.addStyles_plain]
  exact .append (.styled rfl cs) (.plain ['\n'])

/-! ## The render -/

namespace HeadingContent

variable {config : RenderConfig} {c : HeadingContent}

/-- What the render of all stages makes of a block with this content. -/
def rendered (config : RenderConfig) (style : List Char) (c : HeadingContent) : StyledText :=
  (render config Stage.all (.always false) (.plain (para style c.source))).text

theorem rendered_eq {r : Stage} {style : List Char} (hs : Document.StyledAs r style) :
    c.rendered config style = afterStages config (Stage.majorSectionHeading.apply config
      (.plain (para style c.shrunk.source))) laterStages := by
  have hshrink := Document.shrink_para hs.noBlank c.source []
  rw [List.append_nil, Text.shrink_nil, List.append_nil] at hshrink
  rw [source_shrunk, ← hshrink, ← Document.trimBoth_para style c.source]
  exact Passage.rendered_eq config config.suppressLeadingHeading _

/-- **Of a major heading** there are the labels and a line in upper case, with its tags as they are
written; it is left out if the setting says so. -/
theorem rendered_major (config : RenderConfig) (c : HeadingContent) :
    c.rendered config ['m', 's'] = frontLabels config [] ++
      if config.suppressLeadingHeading then ∅ else Block.majorHeading (.plain c.tidied.source) := by
  obtain ⟨o, hstart, hgroup, happly⟩ := Stage.exists_apply_para (s := .majorSectionHeading) rfl
    (by decide) config c.shrunk.endsFirst_blockEnd
  have hrule : Stage.majorSectionHeading.apply config
      (.plain (para ['m', 's'] c.shrunk.source)) =
        if config.suppressLeadingHeading then ∅
        else Block.majorHeading (.plain c.tidied.source) := by
    rw [happly, Stage.rule, Block.majorHeadingAt, hstart, hgroup, beq_self_eq_true, Bool.and_true,
      source_tidied]
  rw [rendered_eq .majorSectionHeading, hrule]
  split
  · exact afterStages_laterStages_of_silent config (.of_noTag List.not_mem_nil)
  · refine afterStages_laterStages_of_silent config ?_
    rw [text_majorHeading]
    exact .upper_line c.tidied.source

/-- **Of another heading** there are the labels of the verses that it does not count, and its line
with labels and glyphs for its tags. -/
theorem rendered_minor (config : RenderConfig) (c : HeadingContent) :
    c.rendered config ['s'] =
      frontLabels config c.tidied.seen ++ c.tidied.line config ++ .plain ['\n'] := by
  have hmajor : Stage.majorSectionHeading.apply config (.plain (para ['s'] c.shrunk.source))
      = .plain (para ['s'] c.shrunk.source) := by
    refine Stage.apply_of_quiet (by decide) config ?_
    rw [StyledText.text_plain]
    exact Document.quiet_para (by decide) .sectionHeading (by decide) c.shrunk.free_block
  obtain ⟨o, -, hgroup, happly⟩ := Stage.exists_apply_para (s := .sectionHeading) rfl
    (by decide) config c.shrunk.endsFirst_blockEnd
  have hheading : Stage.sectionHeading.apply config (.plain (para ['s'] c.shrunk.source)) =
      Block.heading (.plain c.tidied.source) := by
    rw [source_tidied]
    exact happly.trans (congrArg Block.heading hgroup)
  have hline : Document.Free 'p' (Block.heading (.plain c.tidied.source)).text := by
    rw [text_heading]
    exact c.tidied.free_block.append (.of_noTag (by decide))
  have hsection : Stage.sectionHeading.apply config (Block.heading (.plain c.tidied.source)) =
      Block.heading (.plain c.tidied.source) :=
    Stage.apply_of_quiet (by decide) config (Document.quiet_of_free (by decide) hline)
  have hlater := c.tidied.afterStages_heading config
  rw [laterStages, afterStages, hsection] at hlater
  rw [rendered_eq .sectionHeading, hmajor, laterStages, afterStages, hheading]
  exact hlater

/-- Nothing in a major heading can be tapped. -/
theorem tapTargets_major (config : RenderConfig) (c : HeadingContent) :
    (c.rendered config ['m', 's']).tapTargets = (frontLabels config []).tapTargets := by
  rw [rendered_major]
  refine StyledText.tapTargets_append ?_
  split
  · exact .plain []
  · rw [Block.majorHeading, StyledText.mapText_upper_plain]
    exact untapped_heading _

theorem tappable_minor (config : RenderConfig) (c : HeadingContent) :
    (c.rendered config ['s']).tappable =
      (frontLabels config c.tidied.seen).tappable ++ restTappable config [] c.tidied.rest := by
  rw [rendered_minor, StyledText.tappable_append, StyledText.tappable_append, tappable_line,
    (StyledText.Untapped.plain _).tappable_eq, List.append_nil]

theorem text_minor (config : RenderConfig) (c : HeadingContent) : (c.rendered config ['s']).text =
    (frontLabels config c.tidied.seen).text ++ (c.tidied.line config).text ++ ['\n'] := by
  rw [rendered_minor, StyledText.text_append, StyledText.text_append, StyledText.text_plain]

/-- Without tags a major heading is the other one in upper case. -/
theorem major_eq_upper_of_noTags (hshown : config.suppressLeadingHeading = false)
    (hrest : c.rest = []) :
    (c.rendered config ['m', 's']).tapTargets = (c.rendered config ['s']).tapTargets ∧
      (c.rendered config ['m', 's']).text = Text.upper (c.rendered config ['s']).text := by
  have htidied : c.tidied.rest = [] := by
    rw [tidied, shrunk, hrest]
    rfl
  have hseen : c.tidied.seen = [] := by
    rw [seen, htidied]
    rfl
  have hline : c.tidied.line config ++ .plain ['\n'] = Block.heading (.plain c.tidied.source) := by
    rw [heading_plain, line, source, htidied, restShown, StyledText.append_empty]
    simp [restSource]
  have hlabels : Text.upper (frontLabels config []).text = (frontLabels config []).text := by
    refine Text.upper_of_forall_lt fun d hd => ?_
    rcases mem_frontLabels hd with h | rfl
    · exact VerseMarker.toNat_lt_of_isLabelChar h
    · decide
  constructor
  · rw [tapTargets_major, rendered_minor, hseen, StyledText.append_assoc, hline,
      StyledText.tapTargets_append (untapped_heading _)]
  · rw [rendered_major, hshown, rendered_minor, hseen, StyledText.append_assoc, hline,
      StyledText.text_append, StyledText.text_append, Text.upper_append, hlabels, text_heading,
      Text.upper_append]
    exact congrArg _ (text_majorHeading _)

theorem tag_mem_tidied (h : c.rest ≠ []) : '<' ∈ c.tidied.source := by
  obtain ⟨p, rest, hp⟩ := List.exists_cons_of_ne_nil h
  obtain ⟨tail, htail⟩ := p.1.shrunk.exists_source_eq
  rw [tidied, shrunk, hp, source, restSource, List.map_cons, List.flatMap_cons, htail]
  simp

/-- A major heading that is left out has no line. -/
theorem lineFeed_notMem_major (h : config.suppressLeadingHeading = true) :
    '\n' ∉ (c.rendered config ['m', 's']).text := by
  rw [rendered_major, h, StyledText.text_append]
  exact List.not_mem_append (lineFeed_notMem_frontLabels config []) List.not_mem_nil

/-- In a major heading that is shown a tag stays a tag. -/
theorem tag_mem_major (h : config.suppressLeadingHeading = false) (hrest : c.rest ≠ []) :
    '<' ∈ (c.rendered config ['m', 's']).text := by
  have hline : '<' ∈ (Block.majorHeading (.plain c.tidied.source)).text := by
    rw [text_majorHeading, List.mem_append, Text.mem_upper_iff (by decide) (by decide)]
    exact .inl (tag_mem_tidied hrest)
  rw [rendered_major, h, StyledText.text_append]
  exact List.mem_append_right _ hline

theorem tag_notMem_minor (config : RenderConfig) (c : HeadingContent) :
    '<' ∉ (c.rendered config ['s']).text := by
  rw [text_minor]
  refine List.not_mem_append (List.not_mem_append ?_ ?_) (by decide)
  · exact noTag_frontLabels config c.tidied.seen
  · exact c.tidied.noTag_line config

theorem upper_ne_of_tags (h : config.suppressLeadingHeading = true ∨ c.rest ≠ []) :
    Text.upper (c.rendered config ['m', 's']).text ≠
      Text.upper (c.rendered config ['s']).text := by
  intro heq
  have hmem {d : Char} (hd : d.toNat < 0x41) (hz : d ≠ '\x00') :
      d ∈ (c.rendered config ['m', 's']).text ↔ d ∈ (c.rendered config ['s']).text :=
    Text.mem_iff_of_upper_eq hd hz heq
  -- the two differ in a character that upper case leaves alone: the line feed, or a `<`
  cases hsuppress : config.suppressLeadingHeading with
  | true =>
    have hline : '\n' ∈ (c.rendered config ['s']).text := by
      rw [text_minor]
      exact List.mem_append_right _ (List.mem_singleton_self _)
    exact lineFeed_notMem_major hsuppress ((hmem (by decide) (by decide)).mpr hline)
  | false =>
    have hrest : c.rest ≠ [] := h.resolve_left (by simp [hsuppress])
    have htag := tag_mem_major hsuppress hrest
    exact tag_notMem_minor config c ((hmem (by decide) (by decide)).mp htag)

end HeadingContent

/-- **Tags in a major heading are lost.** Of a major heading, alone in the text, the render of all
stages has the labels of all expected verses, and then its content in upper case, with the tags as
they are written; the setting leaves it out. Only the labels can be tapped. Of another heading with
the same content it has the labels of the verses that the content does not have, and then its words
with a label for each verse tag that is to be shown and a glyph for each note. So the two have the
same targets, and texts that differ in case alone, exactly if the major heading is shown and its
content has no tags. -/
theorem heading_targets (config : RenderConfig) (c : HeadingContent) :
    c.rendered config ['m', 's'] = frontLabels config [] ++
        (if config.suppressLeadingHeading then ∅
        else Block.majorHeading (.plain c.tidied.source)) ∧
      (c.rendered config ['m', 's']).tapTargets = (frontLabels config []).tapTargets ∧
      c.rendered config ['s'] =
        frontLabels config c.tidied.seen ++ c.tidied.line config ++ .plain ['\n'] ∧
      (c.rendered config ['s']).tappable =
        (frontLabels config c.tidied.seen).tappable ++ restTappable config [] c.tidied.rest ∧
      (config.suppressLeadingHeading = false → c.rest = [] →
        (c.rendered config ['m', 's']).tapTargets = (c.rendered config ['s']).tapTargets ∧
          (c.rendered config ['m', 's']).text = Text.upper (c.rendered config ['s']).text) ∧
      (config.suppressLeadingHeading = true ∨ c.rest ≠ [] →
        Text.upper (c.rendered config ['m', 's']).text ≠
          Text.upper (c.rendered config ['s']).text) :=
  ⟨c.rendered_major config, c.tapTargets_major config, c.rendered_minor config,
    c.tappable_minor config, HeadingContent.major_eq_upper_of_noTags,
    HeadingContent.upper_ne_of_tags⟩

/-- Words alone, and a note after words. -/
theorem heading_targets_of_two :
    let words : HeadingContent := ⟨⟨['a', ' ', 'b'], by decide⟩, []⟩
    let note : NoteTag := ⟨" caller=\"+\" style=\"f\"".toList, ['b'],
      ⟨.footnote, ['+'], none, ['b']⟩, ⟨' ', _, rfl, by decide, rfl⟩, by decide, by decide,
      by decide +kernel⟩
    let noted : HeadingContent := ⟨⟨['a'], by decide⟩, [(.note note, ⟨[], by decide⟩)]⟩
    (words.rendered { expected := .single 7 } ['m', 's']).text =
        Text.upper (words.rendered { expected := .single 7 } ['s']).text ∧
      Text.upper (noted.rendered {} ['m', 's']).text ≠
        Text.upper (noted.rendered {} ['s']).text := by
  intro words note noted
  obtain ⟨-, -, -, -, hsame, -⟩ := heading_targets { expected := .single 7 } words
  obtain ⟨-, -, -, -, -, hne⟩ := heading_targets {} noted
  exact ⟨(hsame rfl rfl).2, hne (.inr (List.cons_ne_nil _ _))⟩

/-- A major heading that is shown loses its verse, and a heading of the other kind shows it. -/
theorem verse_lost_in_majorHeading :
    let space : Tag.SomeBlanks [' '] := ⟨by decide, Tag.isBlank_of_mem_space⟩
    let tag : VerseTag := ⟨[' '], ['1'], [' '], [' '], .single 1, space, space, space.blanks,
      by decide +kernel⟩
    let c : HeadingContent := ⟨⟨[], by decide⟩, [(.verse tag, ⟨['x'], by decide⟩)]⟩
    let config : RenderConfig := { verseHandler := true }
    c.source = "<verse number=\"1\" style=\"v\" />x".toList ∧
      (c.rendered config ['m', 's']).text = "<VERSE NUMBER=\"1\" STYLE=\"V\" />X\n".toList ∧
      (c.rendered config ['m', 's']).tapTargets = [] ∧
      (c.rendered config ['s']).text = "1 x\n".toList ∧
      (c.rendered config ['s']).tapTargets = [(⟨.verse, "1"⟩, some ['1'])] := by
  decide +kernel

end Passage
