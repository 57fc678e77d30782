import Passage.Proofs.Tag.Parts
import Passage.Render.Stage

/-! The grammar of the tags. It says of each family which parts a tag of it has and what may follow,
and nothing of how far a piece reads: blanks may stand here, a style must stand there, and a block
runs up to its first closing tag. Patterns read exactly the tags of the grammar
(`Family.match?_eq_some_iff`): the literal after a stretch of blanks or digits does not start in
that class, so the stretch that the grammar allows is all that a piece can take. -/

namespace Passage.Tag

/-- The families of tags, and of stretches of blanks. -/
inductive Family
  | blankEdges
  | lineBreaks
  | blanks
  | para (style : List Char)
  | emptyPara (style : List Char)
  | span (style : List Char)
  | poeticLine
  | verse
  | note
deriving DecidableEq

def Family.pattern : Family → Pattern
  | blankEdges => .blankEdges
  | lineBreaks => .lineBreaks
  | blanks => .blanks
  | para style => .para style
  | emptyPara style => .emptyPara style
  | span style => .span style
  | poeticLine => .poeticLine
  | verse => .verse
  | note => .note

/-- The pattern of a stage is that of a family, so the grammar has all that a render looks for. -/
theorem exists_family (s : Stage) : ∃ f : Family, s.pattern = f.pattern := by
  cases s with
  | trim => exact ⟨.blankEdges, rfl⟩
  | lineBreaks => exact ⟨.lineBreaks, rfl⟩
  | whitespace => exact ⟨.blanks, rfl⟩
  | majorSectionHeading | sectionHeading | paragraph | rightAlignedPoeticLine | chapterLabel =>
    exact ⟨.para _, rfl⟩
  | blankLine => exact ⟨.emptyPara _, rfl⟩
  | poeticLine => exact ⟨.poeticLine, rfl⟩
  | verse => exact ⟨.verse, rfl⟩
  | note => exact ⟨.note, rfl⟩
  | selah => exact ⟨.span _, rfl⟩

structure SomeBlanks (cs : List Char) : Prop where
  ne_nil : cs ≠ []
  blanks : Blanks cs

structure SomeDigits (cs : List Char) : Prop where
  ne_nil : cs ≠ []
  digits : ∀ c ∈ cs, Text.isDecimalDigit c = true

/-- A blank and characters that do not end a tag. -/
def AttributeList (cs : List Char) : Prop :=
  ∃ b x, Text.isBlank b = true ∧ '>' ∉ x ∧ cs = b :: x

/-- The content of a block after its leading blanks, up to the first closing tag. -/
structure Content (closing gap content : List Char) : Prop where
  blanks : Blanks gap
  stops : Stops Text.isBlank content
  first : EndsFirst closing (gap ++ content)

/-- `style="S"`. -/
def styleText (style : List Char) : List Char :=
  "style=\"".toList ++ style ++ ['"']

/-- The parts of a tag of a family, which stands at the start of the whole text (`atStart`) or later
and before `after`. -/
inductive Family.Spells : Family → Bool → List Part → List Char → Prop
  | leadingBlanks {x after : List Char} (hx : SomeBlanks x) (hafter : Stops Text.isBlank after) :
      Spells .blankEdges true [.plain x] after
  | trailingBlanks {atStart : Bool} {x : List Char} (hx : SomeBlanks x) :
      Spells .blankEdges atStart [.plain x] []
  | lineBreaks {atStart : Bool} {x after : List Char} (hx : Blanks x) (hbreak : '\n' ∈ x)
      (hafter : Stops Text.isBlank after) : Spells .lineBreaks atStart [.plain x] after
  | blanks {atStart : Bool} {x after : List Char} (hx : SomeBlanks x)
      (hafter : Stops Text.isBlank after) : Spells .blanks atStart [.plain x] after
  | para {atStart : Bool} {style a b gap content after : List Char} (ha : SomeBlanks a)
      (hb : Blanks b) (hcontent : Content "</para>".toList gap content) :
      Spells (.para style) atStart
        [.plain "<para".toList, .plain a, .plain (styleText style), .plain b, .plain ['>'],
          .plain gap, .captured content, .plain "</para>".toList] after
  | emptyPara {atStart : Bool} {style a b after : List Char} (ha : SomeBlanks a) (hb : Blanks b) :
      Spells (.emptyPara style) atStart
        [.plain "<para".toList, .plain a, .plain (styleText style), .plain b,
          .plain "/>".toList] after
  | span {atStart : Bool} {style a b gap content after : List Char} (ha : SomeBlanks a)
      (hb : Blanks b) (hcontent : Content "</char>".toList gap content) :
      Spells (.span style) atStart
        [.plain "<char".toList, .plain a, .plain (styleText style), .plain b, .plain ['>'],
          .plain gap, .captured content, .plain "</char>".toList] after
  | poeticLine {atStart : Bool} {a level b gap content after : List Char} (ha : SomeBlanks a)
      (hlevel : SomeDigits level) (hb : Blanks b)
      (hcontent : Content "</para>".toList gap content) :
      Spells .poeticLine atStart
        [.plain "<para".toList, .plain a, .plain "style=\"q".toList, .captured level, .plain ['"'],
          .plain b, .plain ['>'], .plain gap, .captured content, .plain "</para>".toList] after
  | verse {atStart : Bool} {a number b c after : List Char} (ha : SomeBlanks a)
      (hnumber : '"' ∉ number) (hb : SomeBlanks b) (hc : Blanks c) :
      Spells .verse atStart
        [.plain "<verse".toList, .plain a, .plain "number=\"".toList, .captured number,
          .plain ['"'], .plain b, .plain "style=\"v\"".toList, .plain c, .plain "/>".toList] after
  | note {atStart : Bool} {attributes body after : List Char}
      (hattributes : AttributeList attributes) (hbody : EndsFirst "</note>".toList body) :
      Spells .note atStart
        [.plain "<note".toList, .captured attributes, .plain ['>'], .captured body,
          .plain "</note>".toList] after

/-! ## Parts of tags -/

variable {ps : List Piece} {parts : List Part} {after : List Char}

/-- A literal stops a class that its first character is not in. -/
theorem stops_literal {q : Char → Bool} {c : Char} (hc : q c = false) {l : List Char}
    (hl : l.head? = some c) (parts : List Part) (after : List Char) :
    Stops q (spell (.plain l :: parts) ++ after) := by
  rw [spell_plain, List.append_assoc]
  cases l with
  | nil => cases hl
  | cons d l =>
    cases hl
    intro e he
    cases he
    exact hc

theorem reads_literal_iff {l : List Char} :
    Reads (.literal l :: ps) parts after ↔
      ∃ rest, Reads ps rest after ∧ parts = .plain l :: rest := by
  constructor
  · intro h
    cases h with
    | cons htaken hrest =>
      cases htaken
      exact ⟨_, hrest, rfl⟩
  · rintro ⟨rest, hrest, rfl⟩
    exact .cons (.literal l) hrest

/-- The piece takes a stretch `x` with `P x`, one part, where the text goes on outside a class. -/
def Piece.Stretches (p : Piece) (q : Char → Bool) (part : List Char → Part)
    (P : List Char → Prop) : Prop :=
  ∀ taken after, p.Takes taken after ↔ ∃ x, P x ∧ Stops q after ∧ taken = [part x]

theorem Piece.stretches_blanks : Piece.blanks.Stretches Text.isBlank .plain Blanks := by
  intro taken after
  constructor
  · intro h
    cases h with
    | blanks hx hafter => exact ⟨_, hx, hafter, rfl⟩
  · rintro ⟨x, hx, hafter, rfl⟩
    exact .blanks hx hafter

theorem Piece.stretches_someBlanks :
    Piece.someBlanks.Stretches Text.isBlank .plain SomeBlanks := by
  intro taken after
  constructor
  · intro h
    cases h with
    | someBlanks hne hx hafter => exact ⟨_, ⟨hne, hx⟩, hafter, rfl⟩
  · rintro ⟨x, hx, hafter, rfl⟩
    exact .someBlanks hx.ne_nil hx.blanks hafter

theorem Piece.stretches_digits :
    Piece.digits.Stretches Text.isDecimalDigit .captured SomeDigits := by
  intro taken after
  constructor
  · intro h
    cases h with
    | digits hne hx hafter => exact ⟨_, ⟨hne, hx⟩, hafter, rfl⟩
  · rintro ⟨x, hx, hafter, rfl⟩
    exact .digits hx.ne_nil hx.digits hafter

theorem Piece.stretches_upTo (stop : Char) :
    (Piece.upTo stop).Stretches (· != stop) .captured (stop ∉ ·) := by
  intro taken after
  constructor
  · intro h
    cases h with
    | upTo hx hafter => exact ⟨_, hx, hafter, rfl⟩
  · rintro ⟨x, hx, hafter, rfl⟩
    exact .upTo hx hafter

theorem Piece.stretches_attributes :
    Piece.attributes.Stretches (· != '>') .captured AttributeList := by
  intro taken after
  constructor
  · intro h
    cases h with
    | attributes hb hx hafter => exact ⟨_, ⟨_, _, hb, hx, rfl⟩, hafter, rfl⟩
  · rintro ⟨_, ⟨b, x, hb, hx, rfl⟩, hafter, rfl⟩
    exact .attributes hb hx hafter

/-- A stretch before a literal that does not start in its class: the literal stops it, however long
it is. -/
theorem Piece.Stretches.reads_literal_iff {p : Piece} {q : Char → Bool} {part : List Char → Part}
    {P : List Char → Prop} (hp : p.Stretches q part P) {c : Char} (hc : q c = false)
    {l : List Char} (hl : l.head? = some c) :
    Reads (p :: .literal l :: ps) parts after ↔
      ∃ x rest, P x ∧ Reads ps rest after ∧ parts = part x :: .plain l :: rest := by
  constructor
  · intro h
    cases h with
    | cons htaken hparts =>
      obtain ⟨rest, hrest, rfl⟩ := Tag.reads_literal_iff.mp hparts
      obtain ⟨x, hx, -, rfl⟩ := (hp _ _).mp htaken
      exact ⟨x, rest, hx, hrest, rfl⟩
  · rintro ⟨x, rest, hx, hrest, rfl⟩
    have hstops := stops_literal hc hl rest after
    exact .cons ((hp _ _).mpr ⟨x, hx, hstops, rfl⟩) (.cons (.literal _) hrest)

/-- The blanks after an opening tag, the content and the closing tag. -/
theorem reads_content_iff {closing : List Char} (hclosing : closing.head? = some '<') :
    Reads [.blanks, .content closing] parts after ↔
      ∃ gap content, Content closing gap content ∧
        parts = [.plain gap, .captured content, .plain closing] := by
  constructor
  · intro h
    cases h with
    | cons hblanks hparts =>
      cases hparts with
      | cons hcontent hnil =>
        cases hnil
        cases hcontent with
        | content hfirst =>
          obtain ⟨gap, hgap, hstops, rfl⟩ := (Piece.stretches_blanks _ _).mp hblanks
          rw [List.append_nil, spell_captured, List.append_assoc] at hstops
          have hfirst := (endsFirst_append_iff hclosing hgap).mpr hfirst
          exact ⟨_, _, ⟨hgap, hstops.of_append, hfirst⟩, rfl⟩
  · rintro ⟨gap, content, h, rfl⟩
    have hfirst := (endsFirst_append_iff hclosing h.blanks).mp h.first
    have hstops : Stops Text.isBlank (spell [.captured content, .plain closing] ++ after) := by
      rw [spell_captured, List.append_assoc]
      exact h.stops.append (stops_literal rfl hclosing [] after)
    exact .cons (.blanks h.blanks hstops) (.cons (.content hfirst) .nil)

/-- What follows the style of a block: the end of its opening tag, the content, the closing tag. -/
theorem reads_block_iff {closing : List Char} (hclosing : closing.head? = some '<') :
    Reads [.blanks, .literal ['>'], .blanks, .content closing] parts after ↔
      ∃ b gap content, Blanks b ∧ Content closing gap content ∧
        parts = [.plain b, .plain ['>'], .plain gap, .captured content, .plain closing] := by
  rw [Piece.stretches_blanks.reads_literal_iff (c := '>') rfl rfl]
  constructor
  · rintro ⟨b, rest, hb, hrest, rfl⟩
    obtain ⟨gap, content, hcontent, rfl⟩ := (reads_content_iff hclosing).mp hrest
    exact ⟨b, gap, content, hb, hcontent, rfl⟩
  · rintro ⟨b, gap, content, hb, hcontent, rfl⟩
    exact ⟨b, _, hb, (reads_content_iff hclosing).mpr ⟨gap, content, hcontent, rfl⟩, rfl⟩

/-- What follows the style of an empty tag. -/
theorem reads_emptyEnd_iff :
    Reads [.blanks, .literal "/>".toList] parts after ↔
      ∃ b, Blanks b ∧ parts = [.plain b, .plain "/>".toList] := by
  rw [Piece.stretches_blanks.reads_literal_iff (c := '/') rfl rfl]
  constructor
  · rintro ⟨b, rest, hb, hrest, rfl⟩
    cases hrest
    exact ⟨b, hb, rfl⟩
  · rintro ⟨b, hb, rfl⟩
    exact ⟨b, [], hb, .nil, rfl⟩

/-- The name of a tag and its style. -/
theorem reads_styleIs_iff {name style : List Char} :
    Reads (.literal name :: (Pattern.styleIs style ++ ps)) parts after ↔
      ∃ a rest, SomeBlanks a ∧ Reads ps rest after ∧
        parts = .plain name :: .plain a :: .plain (styleText style) :: rest := by
  have hstyle (parts : List Part) : Reads (Pattern.styleIs style ++ ps) parts after ↔
      ∃ a rest, SomeBlanks a ∧ Reads ps rest after ∧
        parts = .plain a :: .plain (styleText style) :: rest :=
    Piece.stretches_someBlanks.reads_literal_iff (c := 's') rfl rfl
  rw [reads_literal_iff]
  constructor
  · rintro ⟨_, h, rfl⟩
    obtain ⟨a, rest, ha, hrest, rfl⟩ := (hstyle _).mp h
    exact ⟨a, rest, ha, hrest, rfl⟩
  · rintro ⟨a, rest, ha, hrest, rfl⟩
    exact ⟨_, (hstyle _).mpr ⟨a, rest, ha, hrest, rfl⟩, rfl⟩

/-- A block with a style. -/
theorem reads_styledBlock_iff {name style closing : List Char}
    (hclosing : closing.head? = some '<') :
    Reads (.literal name :: (Pattern.styleIs style ++
        [.blanks, .literal ['>'], .blanks, .content closing])) parts after ↔
      ∃ a b gap content, SomeBlanks a ∧ Blanks b ∧ Content closing gap content ∧
        parts = [.plain name, .plain a, .plain (styleText style), .plain b, .plain ['>'],
          .plain gap, .captured content, .plain closing] := by
  rw [reads_styleIs_iff]
  constructor
  · rintro ⟨a, rest, ha, hrest, rfl⟩
    obtain ⟨b, gap, content, hb, hcontent, rfl⟩ := (reads_block_iff hclosing).mp hrest
    exact ⟨a, b, gap, content, ha, hb, hcontent, rfl⟩
  · rintro ⟨a, b, gap, content, ha, hb, hcontent, rfl⟩
    exact ⟨a, _, ha, (reads_block_iff hclosing).mpr ⟨b, gap, content, hb, hcontent, rfl⟩, rfl⟩

/-! ## Families -/

namespace Family

variable (atStart : Bool)

theorem spells_para_iff {style : List Char} :
    (para style).Spells atStart parts after ↔
      Reads (.literal "<para".toList :: (Pattern.styleIs style ++
        [.blanks, .literal ['>'], .blanks, .content "</para>".toList])) parts after := by
  rw [reads_styledBlock_iff rfl]
  constructor
  · intro h
    cases h with
    | para ha hb hcontent => exact ⟨_, _, _, _, ha, hb, hcontent, rfl⟩
  · rintro ⟨a, b, gap, content, ha, hb, hcontent, rfl⟩
    exact .para ha hb hcontent

theorem spells_span_iff {style : List Char} :
    (span style).Spells atStart parts after ↔
      Reads (.literal "<char".toList :: (Pattern.styleIs style ++
        [.blanks, .literal ['>'], .blanks, .content "</char>".toList])) parts after := by
  rw [reads_styledBlock_iff rfl]
  constructor
  · intro h
    cases h with
    | span ha hb hcontent => exact ⟨_, _, _, _, ha, hb, hcontent, rfl⟩
  · rintro ⟨a, b, gap, content, ha, hb, hcontent, rfl⟩
    exact .span ha hb hcontent

theorem spells_emptyPara_iff {style : List Char} :
    (emptyPara style).Spells atStart parts after ↔
      Reads (.literal "<para".toList :: (Pattern.styleIs style ++
        [.blanks, .literal "/>".toList])) parts after := by
  rw [reads_styleIs_iff]
  constructor
  · intro h
    cases h with
    | emptyPara ha hb => exact ⟨_, _, ha, reads_emptyEnd_iff.mpr ⟨_, hb, rfl⟩, rfl⟩
  · rintro ⟨a, rest, ha, hrest, rfl⟩
    obtain ⟨b, hb, rfl⟩ := reads_emptyEnd_iff.mp hrest
    exact .emptyPara ha hb

theorem spells_poeticLine_iff :
    poeticLine.Spells atStart parts after ↔
      Reads [.literal "<para".toList, .someBlanks, .literal "style=\"q".toList, .digits,
        .literal ['"'], .blanks, .literal ['>'], .blanks, .content "</para>".toList]
        parts after := by
  rw [reads_literal_iff]
  constructor
  · intro h
    cases h with
    | poeticLine ha hlevel hb hcontent =>
      refine ⟨_, ?_, rfl⟩
      refine (Piece.stretches_someBlanks.reads_literal_iff (c := 's') rfl rfl).mpr
        ⟨_, _, ha, ?_, rfl⟩
      refine (Piece.stretches_digits.reads_literal_iff (c := '"') rfl rfl).mpr
        ⟨_, _, hlevel, ?_, rfl⟩
      exact (reads_block_iff rfl).mpr ⟨_, _, _, hb, hcontent, rfl⟩
  · rintro ⟨_, hstyle, rfl⟩
    obtain ⟨a, _, ha, hlevel, rfl⟩ :=
      (Piece.stretches_someBlanks.reads_literal_iff (c := 's') rfl rfl).mp hstyle
    obtain ⟨n, _, hn, hblock, rfl⟩ :=
      (Piece.stretches_digits.reads_literal_iff (c := '"') rfl rfl).mp hlevel
    obtain ⟨b, gap, content, hb, hcontent, rfl⟩ := (reads_block_iff rfl).mp hblock
    exact .poeticLine ha hn hb hcontent

theorem spells_verse_iff :
    verse.Spells atStart parts after ↔
      Reads [.literal "<verse".toList, .someBlanks, .literal "number=\"".toList, .upTo '"',
        .literal ['"'], .someBlanks, .literal "style=\"v\"".toList, .blanks,
        .literal "/>".toList] parts after := by
  rw [reads_literal_iff]
  constructor
  · intro h
    cases h with
    | verse ha hnumber hb hc =>
      refine ⟨_, ?_, rfl⟩
      refine (Piece.stretches_someBlanks.reads_literal_iff (c := 'n') rfl rfl).mpr
        ⟨_, _, ha, ?_, rfl⟩
      refine ((Piece.stretches_upTo '"').reads_literal_iff (c := '"') rfl rfl).mpr
        ⟨_, _, hnumber, ?_, rfl⟩
      refine (Piece.stretches_someBlanks.reads_literal_iff (c := 's') rfl rfl).mpr
        ⟨_, _, hb, ?_, rfl⟩
      exact reads_emptyEnd_iff.mpr ⟨_, hc, rfl⟩
  · rintro ⟨_, hkey, rfl⟩
    obtain ⟨a, _, ha, hvalue, rfl⟩ :=
      (Piece.stretches_someBlanks.reads_literal_iff (c := 'n') rfl rfl).mp hkey
    obtain ⟨number, _, hnumber, hstyle, rfl⟩ :=
      ((Piece.stretches_upTo '"').reads_literal_iff (c := '"') rfl rfl).mp hvalue
    obtain ⟨b, _, hb, hend, rfl⟩ :=
      (Piece.stretches_someBlanks.reads_literal_iff (c := 's') rfl rfl).mp hstyle
    obtain ⟨c, hc, rfl⟩ := reads_emptyEnd_iff.mp hend
    exact .verse ha hnumber hb hc

theorem spells_note_iff :
    note.Spells atStart parts after ↔
      Reads [.literal "<note".toList, .attributes, .literal ['>'], .content "</note>".toList]
        parts after := by
  rw [reads_literal_iff]
  constructor
  · intro h
    cases h with
    | note hattributes hbody =>
      refine ⟨_, ?_, rfl⟩
      refine (Piece.stretches_attributes.reads_literal_iff (c := '>') rfl rfl).mpr
        ⟨_, _, hattributes, ?_, rfl⟩
      exact .cons (.content hbody) .nil
  · rintro ⟨_, h, rfl⟩
    obtain ⟨attributes, _, hattributes, hrest, rfl⟩ :=
      (Piece.stretches_attributes.reads_literal_iff (c := '>') rfl rfl).mp h
    cases hrest with
    | cons htaken hnil =>
      cases hnil
      cases htaken with
      | content hbody => exact .note hattributes hbody

theorem spells_blankEdges_iff :
    blankEdges.Spells atStart parts after ↔
      ∃ x, (x ≠ [] ∧ (atStart = true ∨ after = [])) ∧ Blanks x ∧ Stops Text.isBlank after ∧
        parts = [.plain x] := by
  constructor
  · intro h
    cases h with
    | leadingBlanks hx hafter => exact ⟨_, ⟨hx.ne_nil, .inl rfl⟩, hx.blanks, hafter, rfl⟩
    | trailingBlanks hx =>
      exact ⟨_, ⟨hx.ne_nil, .inr rfl⟩, hx.blanks, fun _ hc => absurd hc (by simp), rfl⟩
  · rintro ⟨x, ⟨hne, rfl | rfl⟩, hx, hafter, rfl⟩
    · exact .leadingBlanks ⟨hne, hx⟩ hafter
    · exact .trailingBlanks ⟨hne, hx⟩

theorem spells_lineBreaks_iff :
    lineBreaks.Spells atStart parts after ↔
      ∃ x, '\n' ∈ x ∧ Blanks x ∧ Stops Text.isBlank after ∧ parts = [.plain x] := by
  constructor
  · intro h
    cases h with
    | lineBreaks hx hbreak hafter => exact ⟨_, hbreak, hx, hafter, rfl⟩
  · rintro ⟨x, hbreak, hx, hafter, rfl⟩
    exact .lineBreaks hx hbreak hafter

theorem spells_blanks_iff :
    blanks.Spells atStart parts after ↔
      ∃ x, x ≠ [] ∧ Blanks x ∧ Stops Text.isBlank after ∧ parts = [.plain x] := by
  constructor
  · intro h
    cases h with
    | blanks hx hafter => exact ⟨_, hx.ne_nil, hx.blanks, hafter, rfl⟩
  · rintro ⟨x, hne, hx, hafter, rfl⟩
    exact .blanks ⟨hne, hx⟩ hafter

/-- A family of stretches of blanks, of which the pattern takes or refuses the longest one. -/
theorem match?_stretch_iff {f : Family} {P : List Char → List Char → Prop}
    (hspells : ∀ parts after, f.Spells atStart parts after ↔
      ∃ x, P x after ∧ Blanks x ∧ Stops Text.isBlank after ∧ parts = [.plain x])
    (hmatch : ∀ x after e, (x ++ after).takeWhile Text.isBlank = x →
      (f.pattern.match? atStart (x ++ after) = some e ↔ P x after ∧ ⟨x.length, []⟩ = e))
    {cs : List Char} {e : Extent} :
    f.pattern.match? atStart cs = some e ↔
      ∃ parts after, f.Spells atStart parts after ∧ cs = spell parts ++ after ∧
        e = extentFrom 0 parts := by
  have hextent (x : List Char) : extentFrom 0 [.plain x] = ⟨x.length, []⟩ := by
    simp [extentFrom, capturesFrom]
  constructor
  · intro h
    have hcs : cs.takeWhile Text.isBlank ++ cs.dropWhile Text.isBlank = cs :=
      List.takeWhile_append_dropWhile
    rw [← hcs] at h
    obtain ⟨hP, rfl⟩ := (hmatch _ _ _ (by rw [hcs])).mp h
    refine ⟨[.plain _], _, (hspells _ _).mpr ⟨_, hP, ?_, ?_, rfl⟩, ?_, (hextent _).symm⟩
    · exact fun _ hc => List.mem_takeWhile_imp hc
    · exact stops_dropWhile _ cs
    · simp
  · rintro ⟨parts, after, h, rfl, rfl⟩
    obtain ⟨x, hP, hx, hafter, rfl⟩ := (hspells _ _).mp h
    rw [spell_plain, spell_nil, List.append_nil, hextent]
    exact (hmatch _ _ _ (takeWhile_append_of_stop hx hafter)).mpr ⟨hP, rfl⟩

/-- **A pattern reads exactly the tags of its family.** -/
theorem match?_eq_some_iff (f : Family) {atStart : Bool} {cs : List Char} {e : Extent} :
    f.pattern.match? atStart cs = some e ↔
      ∃ parts after, f.Spells atStart parts after ∧ cs = spell parts ++ after ∧
        e = extentFrom 0 parts := by
  cases f with
  | blankEdges =>
    refine match?_stretch_iff atStart (fun _ _ => spells_blankEdges_iff atStart) ?_
    intro x after e htake
    simp [pattern, Pattern.match?, htake]
  | lineBreaks =>
    refine match?_stretch_iff atStart (fun _ _ => spells_lineBreaks_iff atStart) ?_
    intro x after e htake
    simp [pattern, Pattern.match?, htake]
  | blanks =>
    refine match?_stretch_iff atStart (fun _ _ => spells_blanks_iff atStart) ?_
    intro x after e htake
    simp [pattern, Pattern.match?, htake]
  | para style =>
    simp only [spells_para_iff]
    exact readPieces?_eq_some_iff
  | emptyPara style =>
    simp only [spells_emptyPara_iff]
    exact readPieces?_eq_some_iff
  | span style =>
    simp only [spells_span_iff]
    exact readPieces?_eq_some_iff
  | poeticLine =>
    simp only [spells_poeticLine_iff]
    exact readPieces?_eq_some_iff
  | verse =>
    simp only [spells_verse_iff]
    exact readPieces?_eq_some_iff
  | note =>
    simp only [spells_note_iff]
    exact readPieces?_eq_some_iff

/-- A tag takes a character at least. -/
theorem Spells.spell_ne_nil {f : Family} {atStart : Bool} (h : f.Spells atStart parts after) :
    spell parts ≠ [] := by
  cases h with
  | leadingBlanks hx | trailingBlanks hx | blanks hx =>
    simpa using hx.ne_nil
  | lineBreaks _ hbreak =>
    simpa using List.ne_nil_of_mem hbreak
  | para | emptyPara | span | poeticLine | verse | note => simp

end Family

/-- What a stage finds takes a character at least. -/
theorem length_pos_of_mem_matches {s : Stage} {text : List Char} {m : Match}
    (h : m ∈ s.pattern.matches text) : 0 < m.extent.length := by
  obtain ⟨-, hm⟩ := Pattern.match?_of_mem_matches h
  obtain ⟨f, hf⟩ := exists_family s
  rw [hf] at hm
  obtain ⟨parts, after, hspells, -, he⟩ := f.match?_eq_some_iff.mp hm
  rw [he, extentFrom, Nat.zero_add]
  exact List.length_pos_iff.mpr hspells.spell_ne_nil

end Passage.Tag
