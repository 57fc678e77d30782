import Passage.Proofs.Render.Behind
import Passage.Proofs.Render.Normalize
import Passage.Proofs.Render.Suppression
import Passage.Proofs.Tag.Opening

/-! Major headings that open a text. The render with the setting leaves out the line of such a
heading and is the render without it otherwise, and the content that it leaves out is what the
query for a leading heading finds in the source (`suppressed_heading`). The render trims the text
first and the query does not, so the blanks that come before the heading have to be taken from the
source for the query to find it (`leadingHeading_after_blank`). -/

namespace Passage

open Document (tagStages)

/-! ## Texts without tags -/

/-- No stage finds a tag that starts in the text. -/
def Silent (cs : List Char) : Prop :=
  ∀ s ∈ tagStages, s.pattern.Quiet cs

namespace Silent

variable {x y cs : List Char}

theorem append (hx : Silent x) (hy : Silent y) : Silent (x ++ y) :=
  fun s hs => (hx s hs).append (hy s hs)

theorem of_noTag (h : '<' ∉ cs) : Silent cs :=
  fun _ hs => Document.quiet_of_free hs (.of_noTag h)

/-- The letter that a name begins with is not there. -/
theorem free_of_not_mem {k : Char} (hk : k ∉ cs) (hlast : cs.getLast? ≠ some '<') :
    Document.Free k cs := by
  induction cs with
  | nil => trivial
  | cons c cs ih =>
    rw [List.mem_cons, not_or] at hk
    refine ⟨fun rest => ?_, ?_⟩
    · cases cs with
      | nil =>
        have hc : '<' ≠ c := by
          rintro rfl
          exact hlast rfl
        simp [Text.dropLiteral?, hc]
      | cons d cs =>
        have hd : k ≠ d := fun hd => hk.2 (hd ▸ List.mem_cons_self)
        simp [Text.dropLiteral?, hd]
    · cases cs with
      | nil => trivial
      | cons d cs => exact ih hk.2 (by rwa [List.getLast?_cons_cons] at hlast)

/-- Tags have small letters for names, and there are none in upper case. -/
theorem upper_line (cs : List Char) : Silent (Text.upper cs ++ ['\n']) := by
  intro s hs
  have hletter : 0x61 ≤ (Document.letter s).toNat ∧ (Document.letter s).toNat ≤ 0x7A := by
    cases s <;> decide
  have hbreak : Document.letter s ∉ ['\n'] := by
    cases s <;> decide
  refine Document.quiet_of_free hs (free_of_not_mem ?_ ?_)
  · rw [List.mem_append, not_or]
    exact ⟨Text.not_mem_upper hletter cs, hbreak⟩
  · rw [List.getLast?_concat]
    decide

end Silent

theorem text_heading (content : List Char) :
    (Block.heading (.plain content)).text = content ++ ['\n'] := by
  rw [Block.heading, StyledText.addStyles_plain, StyledText.text_append, StyledText.text_styled,
    StyledText.text_plain]

theorem text_majorHeading (content : List Char) :
    (Block.majorHeading (.plain content)).text = Text.upper content ++ ['\n'] := by
  rw [Block.majorHeading, StyledText.mapText_upper_plain, text_heading]

/-- Line breaks after a text without tags. -/
theorem Silent.append_gap {t : StyledText} (h : Silent t.text) {gap : List Char}
    (hgap : gap = [] ∨ gap = ['\n']) : Silent (t ++ .plain gap).text := by
  rw [StyledText.text_append, StyledText.text_plain]
  refine h.append (.of_noTag ?_)
  rcases hgap with rfl | rfl <;> decide

/-- Labels of verses are digits, hyphens and spaces. -/
theorem mem_text_labels {tappable : Bool} {ns : List Nat} {c : Char}
    (h : c ∈ (StyledText.concat (ns.map fun n =>
      (VerseMarker.single n).render tappable)).text) :
    VerseMarker.isLabelChar c = true ∨ c = ' ' := by
  rw [StyledText.text_eq_map_chars, StyledText.chars_concat] at h
  obtain ⟨d, hd, rfl⟩ := List.mem_map.mp h
  obtain ⟨u, hu, hd⟩ := List.mem_flatMap.mp hd
  obtain ⟨n, -, rfl⟩ := List.mem_map.mp hu
  rw [VerseMarker.render, StyledText.chars_append, StyledText.chars_styled,
    StyledText.chars_plain, List.mem_append, List.mem_map, List.mem_map] at hd
  rcases hd with ⟨c, hc, rfl⟩ | ⟨c, hc, rfl⟩
  · exact .inl (VerseMarker.isLabelChar_of_mem_label hc)
  · exact .inr (List.mem_singleton.mp hc)

theorem mem_labelsBefore {config : RenderConfig} {found : VerseSet} {c : Char}
    (h : c ∈ (Stage.labelsBefore config found).text) :
    VerseMarker.isLabelChar c = true ∨ c = ' ' := by
  unfold Stage.labelsBefore at h
  split at h
  · exact mem_text_labels h
  · cases h

theorem labelsBefore_of_unconstrained {config : RenderConfig}
    (h : config.expected = .unconstrained) (found : VerseSet) :
    Stage.labelsBefore config found = ∅ := by
  rw [Stage.labelsBefore, missingLabels, h]
  exact ite_self _

theorem noTag_labelsBefore (config : RenderConfig) (found : VerseSet) :
    '<' ∉ (Stage.labelsBefore config found).text := by
  intro h
  rcases mem_labelsBefore h with hc | hc
  · exact absurd hc (by decide)
  · exact absurd hc (by decide)

theorem silent_labelsBefore (config : RenderConfig) (found : VerseSet) :
    Silent (Stage.labelsBefore config found).text :=
  .of_noTag (noTag_labelsBefore config found)

/-! ## The query -/

variable {opening content rest cs : List Char}

/-- The match at the start of a text is the first one. -/
theorem Tag.Pattern.find?_of_match? {p : Tag.Pattern} {e : Tag.Extent} (hne : cs ≠ [])
    (h : p.match? true cs = some e) : p.find? cs = some ⟨0, e⟩ := by
  obtain ⟨c, cs, rfl⟩ := List.exists_cons_of_ne_nil hne
  have hstart : p.match? (0 == 0) (c :: cs) = some e := h
  have hscan : p.matchesFrom 0 0 (c :: cs) = ⟨0, e⟩ :: p.matchesFrom (0 + 1) (e.length - 1) cs := by
    simp only [matchesFrom, hstart]
  exact congrArg List.head? hscan

theorem Tag.Block.find?_eq {style : List Char} (h : Tag.Block style opening content)
    (rest : List Char) :
    (Tag.Pattern.para style).find? (opening ++ (content ++ (Tag.blockEnd ++ rest))) =
      some ⟨0, Tag.blockExtent opening content⟩ :=
  Tag.Pattern.find?_of_match? (by simp [Tag.blockEnd_eq]) (h.match?_eq true rest)

theorem leadingHeading_of_block (h : Tag.Block ['m', 's'] opening content) (rest : List Char) :
    leadingHeading (.plain (opening ++ (content ++ (Tag.blockEnd ++ rest)))) = .plain content := by
  rw [leadingHeading, StyledText.text_plain]
  simp only [Stage.pattern, h.find?_eq rest]
  simp [Tag.Match.group?, Tag.blockExtent, Tag.shift, StyledText.extract_plain, Text.slice]

theorem exists_block_of_leadingHeading (h : leadingHeading (.plain cs) ≠ ∅) :
    ∃ opening content rest, Tag.Block ['m', 's'] opening content ∧
      cs = opening ++ (content ++ (Tag.blockEnd ++ rest)) := by
  unfold leadingHeading at h
  rw [StyledText.text_plain] at h
  cases hfind : (Stage.pattern .majorSectionHeading).find? cs with
  | none =>
    rw [hfind] at h
    exact absurd rfl h
  | some m =>
    obtain ⟨-, hm⟩ := Tag.Pattern.match?_of_mem_matches (List.mem_of_mem_head? hfind)
    by_cases hstart : m.start = 0
    · rw [hstart] at hm
      obtain ⟨opening, content, rest, hblock, hcs, -⟩ := Tag.match?_para_eq_some_iff.mp hm
      exact ⟨opening, content, rest, hblock, hcs⟩
    · simp only [hfind, if_neg hstart] at h
      exact absurd rfl h

/-! ## The pass over major headings -/

variable {config : RenderConfig}

/-- A heading that opens the text is laid out or dropped, and the rest is the same. -/
theorem apply_majorSectionHeading_of_block (config : RenderConfig)
    (h : Tag.Block ['m', 's'] opening content) (rest : List Char) :
    ∃ t, ∀ suppress,
      Stage.majorSectionHeading.apply (config.suppressing suppress)
          (.plain (opening ++ (content ++ (Tag.blockEnd ++ rest)))) =
        (if suppress then ∅ else Block.majorHeading (.plain content)) ++ t := by
  have hquery := leadingHeading_of_block h rest
  have hfind := h.find?_eq rest
  generalize opening ++ (content ++ (Tag.blockEnd ++ rest)) = cs at hquery hfind ⊢
  rw [← StyledText.text_plain cs] at hfind
  refine ⟨Stage.majorSectionHeading.apply (config.suppressing true) (.plain cs), fun suppress => ?_⟩
  cases suppress with
  | false =>
    rw [apply_majorSectionHeading_of_start config hfind rfl, hquery]
    rfl
  | true => exact (StyledText.empty_append _).symm

/-- Where no heading opens the text the setting changes nothing. -/
theorem apply_majorSectionHeading_of_none (config : RenderConfig)
    (h : (Tag.Pattern.para ['m', 's']).match? true cs = none) (suppress : Bool) :
    Stage.majorSectionHeading.apply (config.suppressing suppress) (.plain cs) =
      Stage.majorSectionHeading.apply (config.suppressing false) (.plain cs) := by
  cases suppress with
  | false => rfl
  | true =>
    refine (apply_majorSectionHeading_of_not_start config fun m hfind hstart => ?_).symm
    obtain ⟨-, hm⟩ := Tag.Pattern.match?_of_mem_matches (List.mem_of_mem_head? hfind)
    rw [hstart, StyledText.text_plain] at hm
    have hm : (Tag.Pattern.para ['m', 's']).match? true cs = some m.extent := hm
    rw [h] at hm
    cases hm

/-! ## The later stages -/

/-- The stages after the one of major headings. -/
def laterStages : List Stage :=
  [.sectionHeading, .paragraph, .blankLine, .poeticLine, .rightAlignedPoeticLine, .verse, .note,
    .chapterLabel, .selah]

/-- Only the stage of major headings looks at the setting. -/
theorem afterStages_suppressing {l : List Stage} (hl : .majorSectionHeading ∉ l) (suppress : Bool)
    (t : StyledText) :
    afterStages (config.suppressing suppress) t l = afterStages config t l := by
  have hstage (s : Stage) (hs : s ≠ .majorSectionHeading) (t : StyledText) :
      s.apply (config.suppressing suppress) t = s.apply config t := by
    cases s with
    | majorSectionHeading => exact absurd rfl hs
    | _ => rfl
  induction l generalizing t with
  | nil => rfl
  | cons s l ih =>
    rw [List.mem_cons, not_or] at hl
    rw [afterStages, afterStages, hstage s (Ne.symm hl.1), ih hl.2]

/-- The stages of blocks among them. -/
def blockStages : List Stage :=
  [.sectionHeading, .paragraph, .blankLine, .poeticLine, .rightAlignedPoeticLine]

/-- The stages of blocks leave a heading in front of what they make of the text after it. -/
theorem afterStages_blockStages (config : RenderConfig) {heading : StyledText}
    (hsilent : Silent heading.text) (hend : heading.text.getLast? = some '\n') (t : StyledText) :
    ∃ gap, (gap = [] ∨ gap = ['\n']) ∧ afterStages config (heading ++ t) blockStages =
      heading ++ .plain gap ++ afterStages config t blockStages := by
  have hne : heading.text ≠ [] := by
    intro hnil
    rw [hnil] at hend
    cases hend
  obtain ⟨gap, hgap, hparagraph⟩ := Stage.apply_paragraph_behind config
    (Stage.sectionHeading.apply config t) hne (hsilent _ (by decide))
  have hfront : Silent (heading ++ .plain gap).text := hsilent.append_gap hgap
  have hfrontEnd : (heading ++ .plain gap).text.getLast? = some '\n' := by
    rw [StyledText.text_append, StyledText.text_plain, List.getLast?_append, hend]
    rcases hgap with rfl | rfl <;> rfl
  refine ⟨gap, hgap, ?_⟩
  simp only [blockStages, afterStages]
  rw [Stage.apply_placeless_behind (by decide) (hsilent _ (by decide)), hparagraph,
    ← StyledText.append_assoc, Stage.apply_placeless_behind (by decide) (hfront _ (by decide)),
    Stage.apply_poeticLine_behind hfrontEnd (hfront _ (by decide)),
    Stage.apply_placeless_behind (by decide) (hfront _ (by decide))]

/-- The stages of inline tags leave it there, behind the labels. -/
theorem afterStages_inlineStages (config : RenderConfig) {front : StyledText}
    (hfront : Silent front.text) (t : StyledText) :
    ∃ found rest,
      afterStages config (front ++ t) [.verse, .note, .chapterLabel, .selah] =
        Stage.labelsBefore config found ++ (front ++ rest) ∧
      afterStages config t [.verse, .note, .chapterLabel, .selah] =
        Stage.labelsBefore config found ++ rest := by
  have hinline : ∀ s ∈ [Stage.note, .chapterLabel, .selah], s ∈ Stage.placeless := by decide
  have htag : ∀ s ∈ [Stage.note, .chapterLabel, .selah], s ∈ tagStages := by decide
  obtain ⟨found, rest, hshown, hdropped⟩ :=
    Stage.exists_apply_verse_behind config t (hfront _ (by decide))
  have hlabels := silent_labelsBefore config found
  have hboth : Silent (Stage.labelsBefore config found ++ front).text := by
    rw [StyledText.text_append]
    exact hlabels.append hfront
  refine ⟨found, afterStages config rest [.note, .chapterLabel, .selah], ?_, ?_⟩
  · rw [afterStages, hshown, ← StyledText.append_assoc,
      Stage.afterStages_behind hinline fun s hs => hboth s (htag s hs), StyledText.append_assoc]
  · rw [afterStages, hdropped,
      Stage.afterStages_behind hinline fun s hs => hlabels s (htag s hs)]

/-- A heading that is laid out stays in front of what comes after it, behind the labels. -/
theorem afterStages_laterStages (config : RenderConfig) {heading : StyledText}
    (hsilent : Silent heading.text) (hend : heading.text.getLast? = some '\n') (t : StyledText) :
    ∃ found gap rest, (gap = [] ∨ gap = ['\n']) ∧
      afterStages config (heading ++ t) laterStages =
        Stage.labelsBefore config found ++ (heading ++ .plain gap ++ rest) ∧
      afterStages config t laterStages = Stage.labelsBefore config found ++ rest := by
  have hsplit : laterStages = blockStages ++ [.verse, .note, .chapterLabel, .selah] := rfl
  obtain ⟨gap, hgap, hblocks⟩ := afterStages_blockStages config hsilent hend t
  obtain ⟨found, rest, hshown, hdropped⟩ := afterStages_inlineStages config
    (hsilent.append_gap hgap) (afterStages config t blockStages)
  refine ⟨found, gap, rest, hgap, ?_, ?_⟩
  · rw [hsplit, afterStages_append, hblocks, hshown]
  · rw [hsplit, afterStages_append, hdropped]

/-! ## The render -/

/-- The text of a render, with the setting for headings that open the text. -/
def rendered (config : RenderConfig) (suppress : Bool) (src : List Char) : StyledText :=
  (render (config.suppressing suppress) Stage.all (.always false) (.plain src)).text

theorem rendered_eq (config : RenderConfig) (suppress : Bool) (src : List Char) :
    rendered config suppress src =
      afterStages config (Stage.majorSectionHeading.apply (config.suppressing suppress)
        (.plain (Text.shrink (Text.trimBoth Text.isBlank src)))) laterStages := by
  have hall : Stage.all =
      [.trim, .lineBreaks, .whitespace] ++ (.majorSectionHeading :: laterStages) := rfl
  rw [rendered, render_always, hall, afterStages_append,
    Spacing.afterStages_unstyled _ (fun _ => Iff.rfl), afterStages, afterStages_suppressing]
  decide

/-- The render with the setting leaves out the line of a heading with this content, and nothing
else but the line break that a paragraph after it then needs no more. -/
def Drops (config : RenderConfig) (src content : List Char) : Prop :=
  ∃ found gap rest, (gap = [] ∨ gap = ['\n']) ∧
    rendered config false src = Stage.labelsBefore config found ++
      (Block.majorHeading (.plain content) ++ .plain gap ++ rest) ∧
    rendered config true src = Stage.labelsBefore config found ++ rest

theorem drops_of_block (config : RenderConfig) {src : List Char}
    (h : Tag.Block ['m', 's'] opening content)
    (hsrc : Text.shrink (Text.trimBoth Text.isBlank src) =
      opening ++ (content ++ (Tag.blockEnd ++ rest))) : Drops config src content := by
  obtain ⟨t, ht⟩ := apply_majorSectionHeading_of_block config h rest
  have htext := text_majorHeading content
  obtain ⟨found, gap, rest, hgap, hshown, hdropped⟩ :=
    afterStages_laterStages config (htext ▸ .upper_line content)
      (htext ▸ List.getLast?_concat) t
  refine ⟨found, gap, rest, hgap, ?_, ?_⟩
  · rw [rendered_eq, hsrc, ht, if_neg Bool.false_ne_true, hshown]
  · rw [rendered_eq, hsrc, ht, if_pos rfl, StyledText.empty_append, hdropped]

theorem exists_block_of_rendered_ne (config : RenderConfig) {src : List Char}
    (h : rendered config true src ≠ rendered config false src) :
    ∃ opening content rest, Tag.Block ['m', 's'] opening content ∧
      Text.shrink (Text.trimBoth Text.isBlank src) =
        opening ++ (content ++ (Tag.blockEnd ++ rest)) := by
  rw [rendered_eq, rendered_eq] at h
  cases hm : (Tag.Pattern.para ['m', 's']).match? true
      (Text.shrink (Text.trimBoth Text.isBlank src)) with
  | none => exact absurd (by rw [apply_majorSectionHeading_of_none config hm]) h
  | some e =>
    obtain ⟨opening, content, rest, hblock, hsrc, -⟩ := Tag.match?_para_eq_some_iff.mp hm
    exact ⟨opening, content, rest, hblock, hsrc⟩

theorem Drops.rendered_ne {config : RenderConfig} {src content : List Char}
    (h : Drops config src content) : rendered config true src ≠ rendered config false src := by
  obtain ⟨found, gap, rest, -, hshown, hdropped⟩ := h
  intro heq
  have hlen := congrArg (fun t => t.text.length) heq
  simp only [hshown, hdropped, StyledText.text_append, List.length_append, text_majorHeading,
    List.length_singleton] at hlen
  omega

/-- The line that is left out is the first one, behind the labels. -/
theorem Drops.first_line {config : RenderConfig} {src content : List Char}
    (h : Drops config src content) (hcontent : '\n' ∉ Text.upper content) :
    ∃ found, (rendered config false src).text.takeWhile (· != '\n') =
      (Stage.labelsBefore config found).text ++ Text.upper content := by
  obtain ⟨found, gap, rest, -, hshown, -⟩ := h
  refine ⟨found, ?_⟩
  have hline : ∀ c ∈ (Stage.labelsBefore config found).text ++ Text.upper content,
      (c != '\n') = true := by
    refine Tag.ne_of_not_mem (List.mem_append.not.mpr (not_or.mpr ⟨fun hc => ?_, hcontent⟩))
    rcases mem_labelsBefore hc with hc | hc
    · exact absurd hc (by decide)
    · exact absurd hc (by decide)
  have htext : (rendered config false src).text =
      (Stage.labelsBefore config found).text ++ Text.upper content ++
        ('\n' :: (gap ++ rest.text)) := by
    rw [hshown]
    simp [text_majorHeading]
  rw [htext]
  exact Tag.takeWhile_append_of_stop hline (by rintro _ ⟨⟩; rfl)

/-! ## The query and the render -/

/-- Trimming takes the blanks at the end as well. -/
theorem exists_dropWhile_eq (src : List Char) : ∃ gap, Tag.Blanks gap ∧
    src.dropWhile Text.isBlank = Text.trimBoth Text.isBlank src ++ gap :=
  ⟨(src.dropWhile Text.isBlank).rtakeWhile Text.isBlank, fun _ hc => List.mem_rtakeWhile_imp hc,
    List.rdropWhile_append_rtakeWhile.symm⟩

/-- A closing tag does not lie in blanks. -/
theorem exists_rest_of_append_blanks {core front gap : List Char} (hgap : Tag.Blanks gap)
    (h : core ++ gap = front ++ (Tag.blockEnd ++ rest)) :
    ∃ rest', core = front ++ (Tag.blockEnd ++ rest') := by
  rw [← List.append_assoc] at h
  rcases List.append_eq_append_iff.mp h with ⟨x, hx, hgapx⟩ | ⟨x, hx, -⟩
  · have hnil : x = [] := by
      by_contra hne
      have hlast := congrArg List.getLast? hx
      rw [List.getLast?_append_of_ne_nil _ hne] at hlast
      have hend : x.getLast? = some '>' := by
        rw [← hlast, List.getLast?_append]
        rfl
      have hblank := hgap '>' (hgapx ▸ List.mem_append_left rest (List.mem_of_getLast? hend))
      cases hblank
    refine ⟨[], ?_⟩
    rw [hnil, List.append_nil] at hx
    rw [← hx, List.append_nil]
  · exact ⟨x, by rw [hx, List.append_assoc]⟩

theorem lineFeed_notMem_upper_shrink (cs : List Char) : '\n' ∉ Text.upper (Text.shrink cs) := by
  rw [Text.mem_upper_iff (by decide) (by decide), Text.mem_shrink_iff]
  rintro (⟨hb, -⟩ | ⟨hspace, -⟩)
  · cases hb
  · exact absurd hspace (by decide)

theorem noBlank_majorStyle : ∀ c ∈ ['m', 's'], Text.isBlank c = false :=
  Text.noBlank_of_all rfl

/-- Where the setting changes the render, the query finds a heading once the blanks before it are
taken away, and that heading is left out. -/
theorem exists_query_of_rendered_ne (config : RenderConfig) {src : List Char}
    (h : rendered config true src ≠ rendered config false src) :
    ∃ content, leadingHeading (.plain (src.dropWhile Text.isBlank)) = .plain content ∧
      Drops config src (Text.shrink content) := by
  obtain ⟨opening, content, rest, hblock, hsrc⟩ := exists_block_of_rendered_ne config h
  have hdrops := drops_of_block config hblock hsrc
  obtain ⟨opening', content', rest', htrimmed, hblock', rfl⟩ :=
    hblock.of_shrink noBlank_majorStyle hsrc
  obtain ⟨gap, -, hcore⟩ := exists_dropWhile_eq src
  refine ⟨content', ?_, hdrops⟩
  rw [hcore, htrimmed, List.append_assoc, List.append_assoc, List.append_assoc]
  exact leadingHeading_of_block hblock' (rest' ++ gap)

/-- Where the query finds a content in the source as it is, no blank comes before the heading, and
it is left out. -/
theorem exists_drops_of_leadingHeading (config : RenderConfig) {src : List Char}
    (h : leadingHeading (.plain src) ≠ ∅) :
    src.dropWhile Text.isBlank = src ∧
      Drops config src (Text.shrink (leadingHeading (.plain src)).text) := by
  obtain ⟨opening, content, rest, hblock, hsrc⟩ := exists_block_of_leadingHeading h
  have hstart : src.dropWhile Text.isBlank = src := by
    obtain ⟨ha, hb, hgap⟩ := hblock.opening
    rw [hsrc]
    rfl
  obtain ⟨gap, hgap, hcore⟩ := exists_dropWhile_eq src
  have hsplit : Text.trimBoth Text.isBlank src ++ gap =
      opening ++ content ++ (Tag.blockEnd ++ rest) := by
    rw [← hcore, hstart, hsrc, List.append_assoc]
  obtain ⟨rest', htrimmed⟩ := exists_rest_of_append_blanks hgap hsplit
  obtain ⟨hshrunk, hshrink⟩ := hblock.shrink noBlank_majorStyle rest'
  rw [← List.append_assoc, ← htrimmed] at hshrink
  have hcontent : leadingHeading (.plain src) = .plain content := by
    rw [hsrc]
    exact leadingHeading_of_block hblock rest
  rw [hcontent, StyledText.text_plain]
  exact ⟨hstart, drops_of_block config hshrunk hshrink⟩

/-- **What the render with the setting leaves out, the query finds.** If the setting changes what is
rendered of a source, then it leaves out the line of the heading whose content the query finds once
the blanks before it are taken away, and that line comes first in the render without the setting. If
the query finds a content in the source as it is, then that heading is left out. -/
theorem suppressed_heading (config : RenderConfig) (src : List Char) :
    let query := leadingHeading (.plain (src.dropWhile Text.isBlank))
    (rendered config true src ≠ rendered config false src →
      Drops config src (Text.shrink query.text) ∧
      ∃ found, (rendered config false src).text.takeWhile (· != '\n') =
        (Stage.labelsBefore config found).text ++ Text.upper (Text.shrink query.text)) ∧
    (leadingHeading (.plain src) ≠ ∅ →
      leadingHeading (.plain src) = query ∧
      Drops config src (Text.shrink (leadingHeading (.plain src)).text) ∧
      rendered config true src ≠ rendered config false src) := by
  intro query
  constructor
  · intro hne
    obtain ⟨content, hquery, hdrops⟩ := exists_query_of_rendered_ne config hne
    have hquery : query = .plain content := hquery
    rw [hquery, StyledText.text_plain]
    exact ⟨hdrops, hdrops.first_line (lineFeed_notMem_upper_shrink content)⟩
  · intro hne
    obtain ⟨hstart, hdrops⟩ := exists_drops_of_leadingHeading config hne
    have hquery : leadingHeading (.plain src) = query := by
      simp only [query, hstart]
    exact ⟨hquery, hdrops, hdrops.rendered_ne⟩

theorem suppressed_heading_of_two_words :
    Drops {} "<para  style=\"ms\" > a\n b</para>".toList ['a', ' ', 'b'] ∧
      (rendered {} false "<para  style=\"ms\" > a\n b</para>".toList).text.takeWhile
        (· != '\n') = ['A', ' ', 'B'] := by
  have hquery : leadingHeading (.plain "<para  style=\"ms\" > a\n b</para>".toList) =
      .plain ['a', '\n', ' ', 'b'] := by decide
  obtain ⟨hdropped, hfound⟩ := suppressed_heading {} "<para  style=\"ms\" > a\n b</para>".toList
  obtain ⟨hsame, -, hne⟩ := hfound (by rw [hquery]; decide)
  obtain ⟨hdrops, found, hline⟩ := hdropped hne
  rw [← hsame, hquery] at hdrops hline
  rw [labelsBefore_of_unconstrained rfl] at hline
  exact ⟨hdrops, hline⟩

/-- A blank before the heading keeps the query from finding what the render leaves out. -/
theorem leadingHeading_after_blank :
    (rendered {} false " <para style=\"ms\">Book</para>".toList).text = "BOOK\n".toList ∧
      (rendered {} true " <para style=\"ms\">Book</para>".toList).text = [] ∧
      leadingHeading (.plain " <para style=\"ms\">Book</para>".toList) = ∅ := by
  decide +kernel

end Passage
