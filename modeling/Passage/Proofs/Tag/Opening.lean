import Passage.Proofs.Tag.Grammar
import Passage.Proofs.Text.Shrink

/-! A block at the start of a text. Its pattern reads an opening tag, the content up to the first
closing tag, and that tag (`match?_para_eq_some_iff`). Shrinking the blanks of a text neither makes
such a block nor takes one away, since all of it that is not a stretch of blanks is a word
(`Block.shrink`, `Block.of_shrink`). -/

namespace Passage.Tag

def blockEnd : List Char :=
  "</para>".toList

theorem blockEnd_eq : blockEnd = "</para>".toList := rfl

/-- The opening tag of a block, and the blanks after it. -/
inductive OpeningTag (style : List Char) : List Char → Prop
  | mk {a b gap : List Char} (ha : SomeBlanks a) (hb : Blanks b) (hgap : Blanks gap) :
      OpeningTag style ("<para".toList ++ (a ++ (styleText style ++ (b ++ (['>'] ++ gap)))))

/-- A block in two parts, the opening tag and the content, before its closing tag. -/
structure Block (style opening content : List Char) : Prop where
  opening : OpeningTag style opening
  stops : Stops Text.isBlank content
  first : EndsFirst blockEnd content

def blockExtent (opening content : List Char) : Extent :=
  ⟨(opening ++ (content ++ blockEnd)).length,
    [⟨opening.length, opening.length + content.length⟩]⟩

variable {style opening content rest cs : List Char}

theorem Block.match?_eq (h : Block style opening content) (atStart : Bool) (rest : List Char) :
    (Pattern.para style).match? atStart (opening ++ (content ++ (blockEnd ++ rest))) =
      some (blockExtent opening content) := by
  obtain ⟨⟨ha, hb, hgap⟩, hstops, hfirst⟩ := h
  have hcontent := (endsFirst_append_iff rfl hgap).mpr hfirst
  refine (Family.para style).match?_eq_some_iff.mpr
    ⟨_, rest, .para ha hb ⟨hgap, hstops, hcontent⟩, ?_, ?_⟩
  · simp only [spell_plain, spell_captured, spell_nil, List.append_assoc, List.append_nil,
      blockEnd_eq]
  · simp only [blockExtent, extentFrom, capturesFrom, spell_plain, spell_captured, spell_nil,
      List.length_append, List.length_nil, blockEnd_eq, Extent.mk.injEq, List.cons.injEq,
      Span.mk.injEq, and_true]
    omega

/-- **What the pattern of a block reads.** -/
theorem match?_para_eq_some_iff {atStart : Bool} {e : Extent} :
    (Pattern.para style).match? atStart cs = some e ↔
      ∃ opening content rest, Block style opening content ∧
        cs = opening ++ (content ++ (blockEnd ++ rest)) ∧ e = blockExtent opening content := by
  constructor
  · intro h
    obtain ⟨parts, rest, hspells, rfl, -⟩ := (Family.para style).match?_eq_some_iff.mp h
    cases hspells with
    | @para _ _ a b gap content _ ha hb hcontent =>
      have hblock : Block style
          ("<para".toList ++ (a ++ (styleText style ++ (b ++ (['>'] ++ gap))))) content :=
        ⟨.mk ha hb hcontent.blanks, hcontent.stops,
          (endsFirst_append_iff rfl hcontent.blanks).mp hcontent.first⟩
      have hspell : spell [.plain "<para".toList, .plain a, .plain (styleText style), .plain b,
          .plain ['>'], .plain gap, .captured content, .plain "</para>".toList] ++ rest =
          "<para".toList ++ (a ++ (styleText style ++ (b ++ (['>'] ++ gap)))) ++
            (content ++ (blockEnd ++ rest)) := by
        simp only [spell_plain, spell_captured, spell_nil, List.append_assoc, List.append_nil,
          blockEnd_eq]
      refine ⟨_, _, rest, hblock, hspell, ?_⟩
      rw [hspell, hblock.match?_eq] at h
      exact (Option.some.inj h).symm
  · rintro ⟨opening, content, rest, h, rfl, rfl⟩
    exact h.match?_eq atStart rest

/-! ## Shrinking -/

open Text

theorem noBlank_blockEnd : ∀ c ∈ blockEnd, isBlank c = false :=
  noBlank_of_all rfl

theorem noBlank_name : ∀ c ∈ "<para".toList, isBlank c = false :=
  noBlank_of_all rfl

theorem noBlank_openingEnd : ∀ c ∈ ['>'], isBlank c = false :=
  noBlank_of_all rfl

theorem stops_blockEnd (rest : List Char) : Stops isBlank (blockEnd ++ rest) :=
  stops_cons (by decide) _

/-- A closing tag is a word, so it comes first in the shrunk text where it does in the text. -/
theorem endsFirst_shrink_iff : EndsFirst blockEnd (shrink cs) ↔ EndsFirst blockEnd cs := by
  have hend := shrink_of_noBlank noBlank_blockEnd
  have hstops : Stops isBlank blockEnd := stops_cons (by decide) _
  have hcs : shrink (cs ++ blockEnd) = shrink cs ++ blockEnd := by
    rw [shrink_append cs hstops, hend]
  constructor
  · intro hfirst before hbefore
    obtain ⟨tail, htail⟩ := hbefore
    have hshrunk : shrink before ++ blockEnd ++ shrink tail = shrink cs ++ blockEnd := by
      rw [← hcs, ← htail, List.append_assoc, List.append_assoc,
        shrink_append _ (stops_blockEnd tail), shrink_word_append noBlank_blockEnd]
    -- nothing follows the closing tag that is read, so nothing did
    have hlen := congrArg List.length hshrunk
    rw [hfirst _ ⟨_, hshrunk⟩, List.length_append, Nat.add_eq_left, List.length_eq_zero_iff,
      shrink_eq_nil_iff] at hlen
    rw [hlen, List.append_nil] at htail
    exact List.append_cancel_right htail
  · intro hfirst before hbefore
    obtain ⟨tail, htail⟩ := hbefore
    rw [← hcs, List.append_assoc] at htail
    obtain ⟨x, y, hxy, rfl, hy⟩ := exists_of_shrink_eq_append htail.symm
    obtain ⟨z, w, rfl, hz, -⟩ := exists_of_shrink_eq_append hy
    obtain rfl := eq_of_shrink_eq noBlank_blockEnd hz
    rw [hfirst x ⟨w, by rw [hxy, List.append_assoc]⟩]

section
variable (hstyle : ∀ c ∈ style, isBlank c = false)
include hstyle

theorem noBlank_styleText : ∀ c ∈ styleText style, isBlank c = false := by
  have hkey : ∀ c ∈ "style=\"".toList, isBlank c = false := noBlank_of_all rfl
  have hquote : ∀ c ∈ ['"'], isBlank c = false := noBlank_of_all rfl
  exact List.forall_mem_append.mpr ⟨List.forall_mem_append.mpr ⟨hkey, hstyle⟩, hquote⟩

/-- The opening tag of a block when blanks are shrunk. -/
theorem OpeningTag.shrink (h : OpeningTag style opening) :
    OpeningTag style (Text.shrink opening) := by
  obtain ⟨ha, hb, hgap⟩ := h
  rename_i a b gap
  have hopening :
      Text.shrink ("<para".toList ++ (a ++ (styleText style ++ (b ++ (['>'] ++ gap))))) =
      "<para".toList ++ (Text.shrink a ++ (styleText style ++ (Text.shrink b ++
        (['>'] ++ Text.shrink gap)))) := by
    have hs : Stops isBlank (styleText style ++ (b ++ (['>'] ++ gap))) := stops_cons (by decide) _
    have he : Stops isBlank (['>'] ++ gap) := stops_cons (by decide) _
    rw [shrink_word_append noBlank_name, shrink_append a hs,
      shrink_word_append (noBlank_styleText hstyle), shrink_append b he,
      shrink_word_append noBlank_openingEnd]
  rw [hopening]
  exact .mk ⟨mt shrink_eq_nil_iff.mp ha.ne_nil, blanks_shrink_iff.mpr ha.blanks⟩
    (blanks_shrink_iff.mpr hb) (blanks_shrink_iff.mpr hgap)

theorem OpeningTag.of_shrink (h : OpeningTag style (Text.shrink opening)) :
    OpeningTag style opening := by
  generalize hshrunk : Text.shrink opening = shrunk at h
  obtain ⟨ha, hb, hgap⟩ := h
  obtain ⟨name, x, rfl, hname, hx⟩ := exists_of_shrink_eq_append hshrunk
  obtain ⟨a, y, rfl, rfl, hy⟩ := exists_of_shrink_eq_append hx
  obtain ⟨s, z, rfl, hs, hz⟩ := exists_of_shrink_eq_append hy
  obtain ⟨b, w, rfl, rfl, hw⟩ := exists_of_shrink_eq_append hz
  obtain ⟨e, gap, rfl, he, rfl⟩ := exists_of_shrink_eq_append hw
  rw [eq_of_shrink_eq noBlank_name hname, eq_of_shrink_eq (noBlank_styleText hstyle) hs,
    eq_of_shrink_eq noBlank_openingEnd he]
  exact .mk ⟨mt shrink_eq_nil_iff.mpr ha.ne_nil, blanks_shrink_iff.mp ha.blanks⟩
    (blanks_shrink_iff.mp hb) (blanks_shrink_iff.mp hgap)

/-- A block at the start of a text is one at the start of the shrunk text. -/
theorem Block.shrink (h : Block style opening content) (rest : List Char) :
    Block style (Text.shrink opening) (Text.shrink content) ∧
      Text.shrink (opening ++ (content ++ (blockEnd ++ rest))) =
        Text.shrink opening ++ (Text.shrink content ++ (blockEnd ++ Text.shrink rest)) := by
  refine ⟨⟨h.opening.shrink hstyle, stops_shrink_iff.mpr h.stops,
    endsFirst_shrink_iff.mpr h.first⟩, ?_⟩
  have hend := stops_blockEnd rest
  rw [shrink_append _ (h.stops.append hend), shrink_append _ hend,
    shrink_word_append noBlank_blockEnd]

/-- A block at the start of a shrunk text comes from one at the start of the text. -/
theorem Block.of_shrink {opening' content' rest' : List Char} (h : Block style opening' content')
    (hcs : Text.shrink cs = opening' ++ (content' ++ (blockEnd ++ rest'))) :
    ∃ opening content rest, cs = opening ++ (content ++ (blockEnd ++ rest)) ∧
      Block style opening content ∧ Text.shrink content = content' := by
  obtain ⟨opening, x, rfl, rfl, hx⟩ := exists_of_shrink_eq_append hcs
  obtain ⟨content, y, rfl, rfl, hy⟩ := exists_of_shrink_eq_append hx
  obtain ⟨e, rest, rfl, he, -⟩ := exists_of_shrink_eq_append hy
  obtain rfl := eq_of_shrink_eq noBlank_blockEnd he
  exact ⟨opening, content, rest, rfl, ⟨.of_shrink hstyle h.opening, stops_shrink_iff.mp h.stops,
    endsFirst_shrink_iff.mp h.first⟩, rfl⟩

end

end Passage.Tag
