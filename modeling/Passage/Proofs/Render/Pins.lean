import Passage.Proofs.Render.Complete
import Passage.Proofs.Tag.Content
import Passage.Proofs.Verse.Pins

/-! Pins through the stages. Every match of a stage begins and ends outside labels: with `<` and
`>`, or with blanks. A stage's answer to a tag holds nothing of the tag but its content, which
stands between a `>` or a blank and a `<`. So all stages but the verse stage keep the labels of
a text whole, in order, and none twice (`apply_pinned`). -/

namespace Passage

open VerseMarker (isLabelChar)

/-! ## Matches are walled -/

theorem isLabelChar_of_isBlank {c : Char} (h : Text.isBlank c = true) : isLabelChar c = false := by
  rw [Bool.eq_false_iff]
  intro hl
  have := VerseMarker.isWhite_of_isLabelChar hl
  rw [Text.isWhite_of_isBlank h] at this
  cases this

theorem walled_takeWhile_isBlank {cs : List Char} (h : cs.takeWhile Text.isBlank ≠ []) :
    Walled (cs.takeWhile Text.isBlank) := by
  have hblank : ∀ c ∈ cs.takeWhile Text.isBlank, isLabelChar c = false :=
    fun c hc => isLabelChar_of_isBlank (List.mem_takeWhile_imp hc)
  obtain ⟨first, hf⟩ := Option.isSome_iff_exists.mp (List.isSome_head?.mpr h)
  obtain ⟨last, hl⟩ := Option.isSome_iff_exists.mp (List.getLast?_isSome.mpr h)
  exact ⟨first, last, hf, hl, hblank first (List.mem_of_mem_head? hf),
    hblank last (List.mem_of_getLast? hl)⟩

/-- A tag pattern starts with a literal in `<` and ends with one in `>`. -/
def Tag.Pattern.bracketed : Tag.Pattern → Bool
  | tag pieces =>
    (match pieces.head? with
      | some (.literal l) => l.head? == some '<'
      | _ => false) &&
    (match pieces.getLast? with
      | some (.literal l) | some (.content l) => l.getLast? == some '>'
      | _ => false)
  | _ => true

theorem Stage.bracketed_pattern (s : Stage) : s.pattern.bracketed = true := by
  cases s <;> rfl

theorem Tag.Pattern.walled_of_match? {p : Tag.Pattern} (hp : p.bracketed = true) {atStart : Bool}
    {cs : List Char} {e : Tag.Extent} (h : p.match? atStart cs = some e) :
    Walled (cs.take e.length) := by
  have blanks (hne : (cs.takeWhile Text.isBlank).length ≠ 0) :
      Walled (cs.take (cs.takeWhile Text.isBlank).length) := by
    rw [← List.prefix_iff_eq_take.mp (List.takeWhile_prefix _)]
    exact walled_takeWhile_isBlank (List.length_pos_iff.mp (Nat.pos_of_ne_zero hne))
  cases p with
  | blankEdges =>
    simp only [match?] at h
    split at h
    · rename_i hn
      cases h
      simp only [Bool.and_eq_true, decide_eq_true_eq] at hn
      exact blanks hn.1
    · cases h
  | lineBreaks =>
    simp only [match?] at h
    split at h
    · rename_i hn
      cases h
      refine blanks fun h0 => ?_
      rw [List.length_eq_zero_iff.mp h0] at hn
      cases hn
    · cases h
  | blanks =>
    simp only [match?] at h
    split at h
    · rename_i hn
      cases h
      exact blanks hn
    · cases h
  | tag pieces =>
    simp only [bracketed, Bool.and_eq_true] at hp
    obtain ⟨hfirst, hlast⟩ := hp
    have hstart : ∃ l ps, pieces = .literal ('<' :: l) :: ps := by
      split at hfirst
      · rename_i l hl
        obtain ⟨ps, rfl⟩ := List.head?_eq_some_iff.mp hl
        obtain ⟨l, rfl⟩ := List.head?_eq_some_iff.mp (beq_iff_eq.mp hfirst)
        exact ⟨l, ps, rfl⟩
      · cases hfirst
    have hstop : ∃ ps q l, pieces = ps ++ [q] ∧ l.getLast? = some '>' ∧
        (q = .literal l ∨ q = .content l) := by
      split at hlast
      · rename_i l hl
        obtain ⟨ps, rfl⟩ := List.getLast?_eq_some_iff.mp hl
        exact ⟨ps, _, l, rfl, beq_iff_eq.mp hlast, .inl rfl⟩
      · rename_i l hl
        obtain ⟨ps, rfl⟩ := List.getLast?_eq_some_iff.mp hl
        exact ⟨ps, _, l, rfl, beq_iff_eq.mp hlast, .inr rfl⟩
      · cases hlast
    obtain ⟨l, ps, hpieces⟩ := hstart
    obtain ⟨qs, q, k, rfl, hk, hq⟩ := hstop
    obtain ⟨x, hx⟩ := Tag.closing_isSuffix hq h
    rw [match?, hpieces] at h
    obtain ⟨y, hy⟩ := Tag.literal_isPrefix h
    refine ⟨'<', '>', ?_, ?_, rfl, rfl⟩
    · rw [← hy]
      rfl
    · rw [← hx, List.getLast?_append, hk]
      rfl

/-! ## The content of a block -/

/-- The labels of a text are those of its parts, if no label character stands right before or right
after the middle one. -/
theorem Pinned.part {cs : List StyledChar} {ms : List VerseMarker} (h : Pinned cs ms)
    {before body after : List Char} (ht : cs.map Prod.fst = before ++ body ++ after)
    (hb : ∀ c ∈ before.getLast?, isLabelChar c = false)
    (ha : ∀ c ∈ after.head?, isLabelChar c = false) :
    ∃ mx my mz, ms = mx ++ my ++ mz ∧ Pinned (cs.take before.length) mx ∧
      Pinned ((cs.drop before.length).take body.length) my ∧
      Pinned (cs.drop (before.length + body.length)) mz := by
  obtain ⟨xy, z, rfl, hxy, hz⟩ := List.map_eq_append_iff.mp ht
  obtain ⟨x, y, rfl, hx, hy⟩ := List.map_eq_append_iff.mp hxy
  obtain ⟨mxy, mz, rfl, hmxy, hmz⟩ := h.split fun _ _ d hd _ => by
    refine ha d.1 ?_
    rw [← hz, List.head?_map, Option.mem_def.mp hd]
    rfl
  obtain ⟨mx, my, rfl, hmx, hmy⟩ := hmxy.split fun c hcl _ _ hlabel => by
    have hmem : c.1 ∈ before.getLast? := by
      rw [← hx, List.getLast?_map, Option.mem_def.mp hcl]
      rfl
    rw [hb c.1 hmem] at hlabel
    cases hlabel
  refine ⟨mx, my, mz, rfl, ?_⟩
  rw [← hx, ← hy, List.length_map, List.length_map, ← List.drop_drop, List.append_assoc,
    List.take_left, List.drop_left, List.take_left, List.drop_left]
  exact ⟨hmx, hmy, hmz⟩

/-- What is captured as the content of a block stands between what is read before it, which ends
with `>` or a blank, and the closing tag. -/
theorem chars_content {t : StyledText} {m : Tag.Match} (ps : List Tag.Piece) {closing : List Char}
    (hm : m ∈ (Tag.Pattern.tag (ps ++ [.literal ['>'], .blanks, .content closing])).matches t.text) :
    ∃ e before after body, Tag.readPieces? 0 ps (t.text.drop m.start) = some e ∧
      before = (t.text.drop m.start).take e.length ∧ (∀ c ∈ after, Text.isBlank c = true) ∧
      (t.occurrence m).tag.chars.map Prod.fst = (before ++ '>' :: after) ++ body ++ closing ∧
      ((t.occurrence m).group (ps.map Tag.Piece.captures).sum).chars =
        ((t.occurrence m).tag.chars.drop (before ++ '>' :: after).length).take body.length := by
  obtain ⟨-, hmatch⟩ := Tag.Pattern.match?_of_mem_matches hm
  obtain ⟨before, after, body, htake, ⟨e, hread, hbefore⟩, hblank, hgroup⟩ :=
    Tag.readPieces?_content hmatch
  refine ⟨e, before, after, body, hread, hbefore, hblank, ?_, ?_⟩
  · rw [← htake, StyledText.occurrence, StyledText.chars_extract, List.map_take, List.map_drop,
      ← StyledText.text_eq_map_chars, Tag.Match.span, Nat.add_sub_cancel_left]
  · generalize before ++ '>' :: after = front at hgroup
    rw [Occurrence.group, StyledText.occurrence, hgroup]
    simp only
    rw [StyledText.chars_extract, List.length_append, Nat.add_sub_cancel_left]

/-- What is read before the content of a block does not end in a label. -/
theorem getLast?_before_content {before after : List Char}
    (hblank : ∀ c ∈ after, Text.isBlank c = true) :
    ∀ c ∈ (before ++ '>' :: after).getLast?, isLabelChar c = false := by
  intro c hc
  rw [List.getLast?_append_of_ne_nil _ (List.cons_ne_nil _ _)] at hc
  rcases List.mem_cons.mp (List.mem_of_getLast? hc) with rfl | hmem
  · rfl
  · exact isLabelChar_of_isBlank (hblank c hmem)

/-- What is captured as the content of a block keeps its labels whole. -/
theorem pinned_content {t : StyledText} {m : Tag.Match} (ps : List Tag.Piece)
    {closing : List Char} (hc : closing.head? = some '<')
    (hm : m ∈ (Tag.Pattern.tag (ps ++ [.literal ['>'], .blanks, .content closing])).matches t.text)
    {ns : List VerseMarker} (h : Pinned (t.occurrence m).tag.chars ns) :
    ∃ ns', ns'.Sublist ns ∧
      Pinned ((t.occurrence m).group (ps.map Tag.Piece.captures).sum).chars ns' := by
  obtain ⟨-, before, after, body, -, -, hblank, htag, hgroup⟩ := chars_content ps hm
  have hfirst : ∀ c ∈ closing.head?, isLabelChar c = false := by
    intro c hcl
    rw [hc] at hcl
    cases hcl
    rfl
  obtain ⟨mx, my, mz, rfl, -, hy, -⟩ := h.part htag (getLast?_before_content hblank) hfirst
  rw [hgroup]
  have hsub : my.Sublist (mx ++ my ++ mz) :=
    (List.sublist_append_right mx my).trans (List.sublist_append_left (mx ++ my) mz)
  exact ⟨my, hsub, hy⟩

theorem pinned_para_content {style : List Char} {t : StyledText} {m : Tag.Match}
    (hm : m ∈ (Tag.Pattern.para style).matches t.text) {ns : List VerseMarker}
    (h : Pinned (t.occurrence m).tag.chars ns) :
    ∃ ns', ns'.Sublist ns ∧ Pinned ((t.occurrence m).group 0).chars ns' :=
  pinned_content (.literal "<para".toList :: Tag.Pattern.styleIs style ++ [Tag.Piece.blanks]) rfl
    hm h

theorem pinned_span_content {style : List Char} {t : StyledText} {m : Tag.Match}
    (hm : m ∈ (Tag.Pattern.span style).matches t.text) {ns : List VerseMarker}
    (h : Pinned (t.occurrence m).tag.chars ns) :
    ∃ ns', ns'.Sublist ns ∧ Pinned ((t.occurrence m).group 0).chars ns' :=
  pinned_content (.literal "<char".toList :: Tag.Pattern.styleIs style ++ [Tag.Piece.blanks]) rfl
    hm h

theorem pinned_poeticLine_content {t : StyledText} {m : Tag.Match}
    (hm : m ∈ Tag.Pattern.poeticLine.matches t.text) {ns : List VerseMarker}
    (h : Pinned (t.occurrence m).tag.chars ns) :
    ∃ ns', ns'.Sublist ns ∧ Pinned ((t.occurrence m).group 1).chars ns' :=
  pinned_content [.literal "<para".toList, .someBlanks, .literal "style=\"q".toList, .digits,
    .literal ['"'], .blanks] rfl hm h

/-! ## Stages -/

theorem upperChar_of_isLabelChar {c : Char} (h : isLabelChar c = true) :
    Text.upperChar c = [c] :=
  Text.upperChar_of_lt (VerseMarker.toNat_lt_of_isLabelChar h)

namespace Pinned

variable {t : StyledText} {ms : List VerseMarker}

theorem addStyles (h : Pinned t.chars ms) {attributes : List Attribute}
    (ha : ∀ a ∈ attributes, a.region? = none) : Pinned (t.addStyles attributes).chars ms := by
  rw [StyledText.chars_addStyles]
  exact h.restyle fun s => StyleSet.regions_insertAll ha s

theorem upper (h : Pinned t.chars ms) : Pinned (t.mapText Text.upper).chars ms := by
  rw [StyledText.chars_mapText_upper]
  exact h.respell fun _ => upperChar_of_isLabelChar

theorem before_plain (h : Pinned t.chars ms) (cs : List Char) :
    Pinned (t ++ .plain cs).chars ms := by
  rw [StyledText.chars_append]
  exact List.append_nil ms ▸ h.append (.plain cs)

theorem after_plain (h : Pinned t.chars ms) (cs : List Char) :
    Pinned (.plain cs ++ t).chars ms := by
  rw [StyledText.chars_append]
  exact (Pinned.plain cs).append h

theorem heading (h : Pinned t.chars ms) : Pinned (Block.heading t).chars ms :=
  (h.addStyles (by decide)).before_plain ['\n']

theorem oppositeLine (h : Pinned t.chars ms) : Pinned (Block.oppositeLine t).chars ms :=
  (h.addStyles (by decide)).after_plain ['\n']

end Pinned

theorem pinned_noteAt (o : Occurrence) : Pinned (noteAt o).chars [] := by
  rw [noteAt]
  split
  · rename_i note _
    rw [NoteMarker.render, StyledText.chars_styled]
    refine .of_unpinned fun c hc => ?_
    obtain ⟨d, -, rfl⟩ := List.mem_map.mp hc
    intro region hr
    rw [StyleSet.regions_ofList_pair rfl] at hr
    rw [List.mem_singleton.mp hr]
    exact RegionKind.noConfusion
  · exact .plain _

/-- The answer of a stage to a tag holds labels of that tag, whole and in order. -/
theorem Stage.pinned_rule {s : Stage} (hs : s ≠ verse) (config : RenderConfig) {t : StyledText}
    {m : Tag.Match} (hm : m ∈ s.pattern.matches t.text) {ns : List VerseMarker}
    (h : Pinned (t.occurrence m).tag.chars ns) :
    ∃ ns', ns'.Sublist ns ∧ Pinned (s.rule config t (t.occurrence m)).chars ns' := by
  have none {u : StyledText} (hu : Pinned u.chars []) :
      ∃ ns', ns'.Sublist ns ∧ Pinned u.chars ns' := ⟨[], List.nil_sublist _, hu⟩
  cases s with
  | trim => exact none .nil
  | lineBreaks => exact none (.plain _)
  | whitespace => exact none (.plain _)
  | majorSectionHeading =>
    obtain ⟨ns', hsub, hc⟩ := pinned_para_content hm h
    simp only [rule, Block.majorHeadingAt]
    split
    · exact none .nil
    · exact ⟨ns', hsub, hc.upper.heading⟩
  | sectionHeading =>
    obtain ⟨ns', hsub, hc⟩ := pinned_para_content hm h
    exact ⟨ns', hsub, hc.heading⟩
  | paragraph =>
    obtain ⟨ns', hsub, hc⟩ := pinned_para_content hm h
    exact ⟨ns', hsub, (hc.after_plain _).before_plain ['\n']⟩
  | blankLine => exact none (.plain _)
  | poeticLine =>
    obtain ⟨ns', hsub, hc⟩ := pinned_poeticLine_content hm h
    exact ⟨ns', hsub, ((hc.addStyles (by decide)).after_plain _).before_plain _⟩
  | rightAlignedPoeticLine =>
    obtain ⟨ns', hsub, hc⟩ := pinned_para_content hm h
    exact ⟨ns', hsub, hc.oppositeLine⟩
  | verse => exact absurd rfl hs
  | note => exact none (pinned_noteAt _)
  | chapterLabel =>
    obtain ⟨ns', hsub, hc⟩ := pinned_para_content hm h
    exact ⟨ns', hsub, hc.addStyles (by decide)⟩
  | selah =>
    obtain ⟨ns', hsub, hc⟩ := pinned_span_content hm h
    exact ⟨ns', hsub, hc.oppositeLine⟩

/-- The tags of a stage with what it puts in their places. -/
def Stage.edits (config : RenderConfig) (t : StyledText) (s : Stage) :
    List (Tag.Match × StyledText) :=
  (s.pattern.matches t.text).map fun m => (m, s.rule config t (t.occurrence m))

theorem Stage.chars_apply {s : Stage} (hs : s ≠ verse) (config : RenderConfig) (t : StyledText) :
    (s.apply config t).chars = weave t.chars 0 (s.edits config t) := by
  rw [apply_eq_replaced hs, StyledText.replaced, StyledText.chars_ofChars, edits]

theorem Stage.following_edits (config : RenderConfig) (t : StyledText) (s : Stage) :
    Tag.Following 0 ((s.edits config t).map Prod.fst) := by
  rw [edits, List.map_map]
  exact (List.map_id _).symm ▸ s.pattern.following_matches t.text

theorem Stage.walled_edits (config : RenderConfig) (t : StyledText) (s : Stage) :
    ∀ p ∈ s.edits config t,
      Walled (((t.chars.drop p.1.start).take p.1.extent.length).map Prod.fst) := by
  intro p hp
  obtain ⟨m, hm, rfl⟩ := List.mem_map.mp hp
  obtain ⟨-, hmatch⟩ := Tag.Pattern.match?_of_mem_matches hm
  have hw := Tag.Pattern.walled_of_match? s.bracketed_pattern hmatch
  rwa [List.map_take, List.map_drop, ← StyledText.text_eq_map_chars]

theorem StyledText.chars_tag (t : StyledText) (m : Tag.Match) :
    (t.occurrence m).tag.chars = (t.chars.drop m.start).take m.extent.length := by
  rw [occurrence, chars_extract, Tag.Match.span, Nat.add_sub_cancel_left]

/-- **A stage other than the verse stage keeps labels whole, in order, and none twice.** -/
theorem Stage.apply_pinned {s : Stage} (hs : s ≠ verse) (config : RenderConfig) {t : StyledText}
    {ms : List VerseMarker} (h : Pinned t.chars ms) :
    ∃ ms', ms'.Sublist ms ∧ Pinned (s.apply config t).chars ms' := by
  rw [chars_apply hs]
  refine pinned_weave (following_edits config t s) (walled_edits config t s) ?_ h
  intro p hp ns hns
  obtain ⟨m, hm, rfl⟩ := List.mem_map.mp hp
  exact pinned_rule hs config hm (t.chars_tag m ▸ hns)

/-- What a stage keeps of the labels of a text and what it leaves out of its tags are together the
labels that there were. -/
theorem Stage.apply_losing {s : Stage} (hs : s ≠ verse) (config : RenderConfig) {t : StyledText}
    {Lost : Tag.Match → List VerseMarker → Prop}
    (hp : ∀ m ∈ s.pattern.matches t.text, ∀ ns, Pinned (t.occurrence m).tag.chars ns →
      ∃ kept lost, (kept ++ lost).Perm ns ∧ Lost m lost ∧
        Pinned (s.rule config t (t.occurrence m)).chars kept)
    {ms : List VerseMarker} (h : Pinned t.chars ms) :
    ∃ kept losts, (kept ++ List.flatten losts).Perm ms ∧
      List.Forall₂ Lost (s.pattern.matches t.text) losts ∧
      Pinned (s.apply config t).chars kept := by
  have hedits : ∀ p ∈ s.edits config t, ∀ ns,
      Pinned ((t.chars.drop p.1.start).take p.1.extent.length) ns →
        ∃ kept lost, (kept ++ lost).Perm ns ∧ Lost p.1 lost ∧ Pinned p.2.chars kept := by
    intro p hmem ns hns
    obtain ⟨m, hm, rfl⟩ := List.mem_map.mp hmem
    exact hp m hm ns (t.chars_tag m ▸ hns)
  obtain ⟨kept, losts, hperm, hlosts, hkept⟩ := pinned_weave_losing
    (following_edits config t s) (walled_edits config t s) hedits h
  rw [chars_apply hs]
  refine ⟨kept, losts, hperm, ?_, hkept⟩
  rwa [edits, List.forall₂_map_left_iff] at hlosts

end Passage
