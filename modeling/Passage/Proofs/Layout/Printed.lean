import Passage.Proofs.Layout.Document
import Passage.Proofs.Render.Rewrites
import Passage.Proofs.Verse.Label

/-! Printed blocks and the patterns of the stages. A printed block is taken by the pattern of its
own stage, with its content captured, and it is quiet for the patterns of all other stages of
blocks: their literals part from it in the name of the tag or in the style. -/

namespace Passage.Document

/-- What stands before the content of a block. -/
def front (style : List Char) : List Char :=
  "<para style=\"".toList ++ style ++ "\">".toList

def closing : List Char :=
  "</para>".toList

theorem para_eq (style body : List Char) : para style body = front style ++ body ++ closing :=
  rfl

theorem head_append_closing {body rest : List Char} (h : ∀ c ∈ body.head?, Text.isBlank c = false) :
    ∀ c ∈ (body ++ (closing ++ rest)).head?, Text.isBlank c = false := by
  cases body with
  | nil =>
    intro c hc
    cases hc
    rfl
  | cons d body => exact h

/-! ## Printed tags are taken -/

/-- The end of an opening tag, the content and the closing tag. -/
theorem readPieces?_content {n : Nat} {body : List Char}
    (hb : Tag.Nowhere (Text.dropLiteral? closing) body)
    (hh : ∀ c ∈ body.head?, Text.isBlank c = false) (rest : List Char) :
    Tag.readPieces? n [.blanks, .literal ['>'], .blanks, .content closing]
        (['>'] ++ (body ++ (closing ++ rest))) =
      some ⟨n + 1 + (body.length + closing.length), [⟨n + 1, n + 1 + body.length⟩]⟩ := by
  rw [Tag.readPieces?_noBlanks, Tag.readPieces?_literal,
    Tag.readPieces?_noBlanks (head_append_closing hh), Tag.readPieces?_body hb]
  · rfl
  · exact List.cons_ne_nil _ _
  · simp
    rfl

theorem pattern_para_eq (style : List Char) :
    Tag.Pattern.para style = .tag [.literal "<para".toList, .someBlanks,
      .literal ("style=\"".toList ++ style ++ ['"']), .blanks, .literal ['>'], .blanks,
      .content closing] :=
  rfl

theorem takes_para (style : List Char) {body : List Char}
    (hb : Tag.Nowhere (Text.dropLiteral? closing) body)
    (hh : ∀ c ∈ body.head?, Text.isBlank c = false) :
    (Tag.Pattern.para style).Takes (para style body)
      ⟨(para style body).length, [⟨(front style).length, (front style ++ body).length⟩]⟩ where
  ne_nil := by
    unfold para
    simp
  length_eq := rfl
  match?_eq atStart rest := by
    have hsplit : para style body ++ rest = "<para".toList ++ ([' '] ++
        (("style=\"".toList ++ style ++ ['"']) ++ (['>'] ++ (body ++ (closing ++ rest))))) := by
      unfold para closing
      simp
    rw [pattern_para_eq, Tag.Pattern.match?, hsplit, Tag.readPieces?_literal,
      Tag.readPieces?_space, Tag.readPieces?_literal, readPieces?_content hb hh]
    · unfold para front closing
      simp
      omega
    · simp
      rfl

theorem noTag_decimal (n : Nat) : '<' ∉ Text.decimal n :=
  fun h => absurd (Text.isDigit_of_mem_decimal h) (by decide)

theorem isDecimalDigit_of_mem_decimal {n : Nat} {c : Char} (h : c ∈ Text.decimal n) :
    Text.isDecimalDigit c = true :=
  Text.isDecimalDigit_of_isDigit (Text.isDigit_of_mem_decimal h)

theorem pattern_poeticLine_eq :
    Tag.Pattern.poeticLine = .tag [.literal "<para".toList, .someBlanks,
      .literal "style=\"q".toList, .digits, .literal ['"'], .blanks, .literal ['>'], .blanks,
      .content closing] :=
  rfl

theorem takes_poeticLine {digits : List Char} (hne : digits ≠ [])
    (hdigits : ∀ c ∈ digits, Text.isDecimalDigit c = true) {body : List Char}
    (hb : Tag.Nowhere (Text.dropLiteral? closing) body)
    (hh : ∀ c ∈ body.head?, Text.isBlank c = false) :
    Tag.Pattern.poeticLine.Takes (para ('q' :: digits) body)
      ⟨(para ('q' :: digits) body).length,
        [⟨14, 14 + digits.length⟩,
          ⟨(front ('q' :: digits)).length, (front ('q' :: digits) ++ body).length⟩]⟩ where
  ne_nil := by
    unfold para
    simp
  length_eq := rfl
  match?_eq atStart rest := by
    have hsplit : para ('q' :: digits) body ++ rest =
        "<para".toList ++ ([' '] ++ ("style=\"q".toList ++ (digits ++
          (['"'] ++ (['>'] ++ (body ++ (closing ++ rest))))))) := by
      unfold para closing
      simp
    rw [pattern_poeticLine_eq, Tag.Pattern.match?, hsplit, Tag.readPieces?_literal,
      Tag.readPieces?_space, Tag.readPieces?_literal, Tag.readPieces?_digits,
      Tag.readPieces?_literal, readPieces?_content hb hh]
    · unfold para front closing
      simp
      omega
    · exact hne
    · exact hdigits
    · simp
      decide
    · simp
      rfl

theorem pattern_blankLine_eq :
    Tag.Pattern.emptyPara ['b'] = .tag [.literal "<para".toList, .someBlanks,
      .literal "style=\"b\"".toList, .blanks, .literal "/>".toList] :=
  rfl

theorem takes_blankLine :
    (Tag.Pattern.emptyPara ['b']).Takes "<para style=\"b\"/>".toList ⟨17, []⟩ where
  ne_nil := by simp
  length_eq := rfl
  match?_eq atStart rest := by
    have hsplit : "<para style=\"b\"/>".toList ++ rest =
        "<para".toList ++ ([' '] ++ ("style=\"b\"".toList ++ ("/>".toList ++ rest))) := by
      simp
    rw [pattern_blankLine_eq, Tag.Pattern.match?, hsplit, Tag.readPieces?_literal,
      Tag.readPieces?_space, Tag.readPieces?_literal, Tag.readPieces?_noBlanks,
      Tag.readPieces?_literal]
    · rfl
    · simp
      rfl
    · simp
      rfl

theorem pattern_verse_eq :
    Tag.Pattern.verse = .tag [.literal "<verse".toList, .someBlanks,
      .literal "number=\"".toList, .upTo '"', .literal ['"'], .someBlanks,
      .literal "style=\"v\"".toList, .blanks, .literal "/>".toList] :=
  rfl

theorem takes_verse (n : Nat) (fits : n < VerseMarker.bound) :
    Tag.Pattern.verse.Takes (Inline.verse n fits).source
      ⟨(Inline.verse n fits).source.length, [⟨15, 15 + (Text.decimal n).length⟩]⟩ where
  ne_nil := by
    unfold Inline.source
    simp
  length_eq := rfl
  match?_eq atStart rest := by
    have hsplit : (Inline.verse n fits).source ++ rest =
        "<verse".toList ++ ([' '] ++ ("number=\"".toList ++ (Text.decimal n ++
          '"' :: ([' '] ++ ("style=\"v\"".toList ++ ([' '] ++ ("/>".toList ++ rest))))))) := by
      unfold Inline.source
      simp
    have hquote : '"' ∉ Text.decimal n :=
      fun h => absurd (Text.isDigit_of_mem_decimal h) (by decide)
    have hlit (n : Nat) (ps : List Tag.Piece) (cs : List Char) :
        Tag.readPieces? n (.literal ['"'] :: ps) ('"' :: cs) = Tag.readPieces? (n + 1) ps cs :=
      Tag.readPieces?_literal n ps ['"'] cs
    rw [pattern_verse_eq, Tag.Pattern.match?, hsplit, Tag.readPieces?_literal,
      Tag.readPieces?_space, Tag.readPieces?_literal, Tag.readPieces?_upTo hquote, hlit,
      Tag.readPieces?_space, Tag.readPieces?_literal, Tag.readPieces?_blanks,
      Tag.readPieces?_literal]
    · unfold Inline.source
      simp [Tag.readPieces?]
      omega
    · exact Tag.isBlank_of_mem_space
    · simp
      rfl
    · simp
      rfl
    · simp
      rfl

/-! ## Where no tag starts -/

/-- No tag whose name begins with `k` starts in the text. -/
def Free (k : Char) (x : List Char) : Prop :=
  Tag.Nowhere (Text.dropLiteral? ['<', k]) x

namespace Free

variable {k : Char} {x y : List Char}

theorem of_noTag (h : '<' ∉ x) : Free k x :=
  Tag.Nowhere.of_not_mem h

theorem append (hx : Free k x) (hy : Free k y) : Free k (x ++ y) :=
  Tag.Nowhere.append hx hy

/-- A tag of another name. -/
theorem cons_tag {d : Char} (h : Free k (d :: x)) (hk : k ≠ d) : Free k ('<' :: d :: x) := by
  refine ⟨fun rest => ?_, h⟩
  simp [Text.dropLiteral?, hk]

theorem dropLiteral? (h : Free k x) (l : List Char) :
    Tag.Nowhere (Text.dropLiteral? ('<' :: k :: l)) x := by
  refine Tag.Nowhere.imp (fun cs hcs => ?_) h
  cases hd : Text.dropLiteral? ('<' :: k :: l) cs with
  | none => rfl
  | some rest =>
    rw [Text.dropLiteral?_eq_some_iff.mp hd] at hcs
    simp [Text.dropLiteral?] at hcs

theorem inline (hk : k ≠ 'v') (i : Inline) : Free k i.source := by
  cases i with
  | text cs _ noTag => exact of_noTag noTag
  | verse n fits =>
    have hsource : (Inline.verse n fits).source = '<' :: 'v' :: ("erse number=\"".toList ++
        (Text.decimal n ++ "\" style=\"v\" />".toList)) := by
      unfold Inline.source
      simp
    rw [hsource]
    exact cons_tag (of_noTag (by simp [noTag_decimal])) hk

theorem content (hk : k ≠ 'v') (c : Content) : Free k c.source :=
  Tag.Nowhere.flatMap fun i _ => inline hk i

end Free

/-- The first letter of the names of a stage's tags. -/
def letter : Stage → Char
  | .verse => 'v'
  | .note => 'n'
  | .selah => 'c'
  | _ => 'p'

def tagStages : List Stage :=
  [.majorSectionHeading, .sectionHeading, .paragraph, .blankLine, .poeticLine,
    .rightAlignedPoeticLine, .verse, .note, .chapterLabel, .selah]

theorem quiet_of_free {s : Stage} (hs : s ∈ tagStages) {x : List Char} (h : Free (letter s) x) :
    s.pattern.Quiet x := by
  have hpieces : ∃ l ps, s.pattern = .tag (.literal ('<' :: letter s :: l) :: ps) := by
    cases s <;> first | exact ⟨_, _, rfl⟩ | simp [tagStages] at hs
  obtain ⟨l, ps, hp⟩ := hpieces
  intro atStart
  refine Tag.Nowhere.imp (fun cs hcs => ?_) (h.dropLiteral? l)
  simp [hp, Tag.Pattern.match?, Tag.readPieces?, Tag.Piece.take?, hcs]

def Element.style : Element → List Char
  | majorHeading _ => ['m', 's']
  | heading _ => ['s']
  | paragraph _ => ['p']
  | blankLine => ['b']
  | poeticLine level _ _ => 'q' :: Text.decimal level
  | oppositeLine _ => ['q', 'r']
  | chapterLabel _ => ['c', 'l']

def Element.stage : Element → Stage
  | majorHeading _ => .majorSectionHeading
  | heading _ => .sectionHeading
  | paragraph _ => .paragraph
  | blankLine => .blankLine
  | poeticLine .. => .poeticLine
  | oppositeLine _ => .rightAlignedPoeticLine
  | chapterLabel _ => .chapterLabel

theorem Element.stage_mem_tagStages (e : Element) : e.stage ∈ tagStages := by
  cases e <;> simp [stage, tagStages]

/-- What the pattern of a stage of blocks looks for at the start of the style. -/
def styleLiteral : Stage → List Char
  | .majorSectionHeading => ['m', 's', '"']
  | .sectionHeading => ['s', '"']
  | .paragraph => ['p', '"']
  | .blankLine => ['b', '"']
  | .poeticLine => ['q']
  | .rightAlignedPoeticLine => ['q', 'r', '"']
  | .chapterLabel => ['c', 'l', '"']
  | _ => []

theorem para_eq_style (style body rest : List Char) :
    ∃ more, para style body ++ rest =
      "<para".toList ++ ([' '] ++ ("style=\"".toList ++ (style ++ '"' :: more))) := by
  refine ⟨'>' :: (body ++ (closing ++ rest)), ?_⟩
  unfold para closing
  simp

theorem source_eq_style (e : Element) (rest : List Char) :
    ∃ more, e.source ++ rest =
      "<para".toList ++ ([' '] ++ ("style=\"".toList ++ (e.style ++ '"' :: more))) := by
  cases e with
  | blankLine =>
    refine ⟨"/>".toList ++ rest, ?_⟩
    unfold Element.source Element.style
    simp
  | majorHeading t | heading t | oppositeLine t | chapterLabel t =>
    exact para_eq_style _ t.text rest
  | paragraph c | poeticLine _ _ c => exact para_eq_style _ c.source rest

inductive StyledAs : Stage → List Char → Prop
  | majorSectionHeading : StyledAs .majorSectionHeading ['m', 's']
  | sectionHeading : StyledAs .sectionHeading ['s']
  | paragraph : StyledAs .paragraph ['p']
  | blankLine : StyledAs .blankLine ['b']
  | poeticLine {digits : List Char} (hne : digits ≠ [])
      (hdigits : ∀ c ∈ digits, Text.isDecimalDigit c = true) : StyledAs .poeticLine ('q' :: digits)
  | rightAlignedPoeticLine : StyledAs .rightAlignedPoeticLine ['q', 'r']
  | chapterLabel : StyledAs .chapterLabel ['c', 'l']

theorem Element.styledAs (e : Element) : StyledAs e.stage e.style := by
  cases e with
  | majorHeading => exact .majorSectionHeading
  | heading => exact .sectionHeading
  | paragraph => exact .paragraph
  | blankLine => exact .blankLine
  | poeticLine level =>
    exact .poeticLine (VerseMarker.decimal_ne_nil level) fun _ hc => isDecimalDigit_of_mem_decimal hc
  | oppositeLine => exact .rightAlignedPoeticLine
  | chapterLabel => exact .chapterLabel

namespace StyledAs

variable {r s : Stage} {style : List Char}

theorem noTag (h : StyledAs r style) : '<' ∉ style := by
  cases h with
  | poeticLine _ hdigits =>
    rw [List.mem_cons, not_or]
    exact ⟨by decide, fun h => absurd (hdigits '<' h) (by decide)⟩
  | _ => decide

theorem noBlank (h : StyledAs r style) : ∀ c ∈ style, Text.isBlank c = false := by
  cases h with
  | poeticLine _ hdigits =>
    refine List.forall_mem_cons.mpr ⟨rfl, fun c hc => ?_⟩
    have hdigit := hdigits c hc
    rw [Bool.eq_false_iff]
    intro hb
    simp only [Text.isBlank, Bool.or_eq_true, beq_iff_eq] at hb
    rcases hb with ((((rfl | rfl) | rfl) | rfl) | rfl) | rfl <;> exact absurd hdigit (by decide)
  | _ => exact Text.noBlank_of_all rfl

/-- The literal of one stage's pattern parts from the style of another stage's block, but for a
poetic line's, which is the beginning of a right-aligned one's. -/
theorem dropLiteral?_eq_none (h : StyledAs r style) (hs : s ∈ tagStages) (hp : letter s = 'p')
    (hne : r ≠ s) (more : List Char) :
    Text.dropLiteral? (styleLiteral s) (style ++ '"' :: more) = none ∨
      s = .poeticLine ∧ style = ['q', 'r'] := by
  cases s with
  | trim | lineBreaks | whitespace => exact absurd hs (by decide)
  | verse | note | selah => exact absurd hp (by decide)
  | poeticLine =>
    cases h with
    | poeticLine => exact absurd rfl hne
    | rightAlignedPoeticLine => exact .inr ⟨rfl, rfl⟩
    | _ => exact .inl rfl
  | rightAlignedPoeticLine =>
    cases h with
    | rightAlignedPoeticLine => exact absurd rfl hne
    | @poeticLine digits hdne hdigits =>
      obtain ⟨d, ds, rfl⟩ := List.exists_cons_of_ne_nil hdne
      have hr : 'r' ≠ d := by
        rintro rfl
        exact absurd (hdigits 'r' List.mem_cons_self) (by decide)
      refine .inl ?_
      simp [styleLiteral, Text.dropLiteral?, hr]
    | _ => exact .inl rfl
  | majorSectionHeading | sectionHeading | paragraph | blankLine | chapterLabel =>
    cases h <;> first | exact absurd rfl hne | exact .inl rfl

end StyledAs

theorem dropLiteral?_append (a l cs : List Char) :
    Text.dropLiteral? (a ++ l) (a ++ cs) = Text.dropLiteral? l cs := by
  induction a with
  | nil => rfl
  | cons c a ih => simpa [Text.dropLiteral?] using ih

theorem readPieces?_literal_none {n : Nat} {l cs : List Char} (h : Text.dropLiteral? l cs = none)
    (ps : List Tag.Piece) : Tag.readPieces? n (.literal l :: ps) cs = none := by
  simp [Tag.readPieces?, Tag.Piece.take?, h]

theorem readPieces?_digits_none {n : Nat} {c : Char} (h : Text.isDecimalDigit c = false)
    (ps : List Tag.Piece) (cs : List Char) :
    Tag.readPieces? n (.digits :: ps) (c :: cs) = none := by
  simp [Tag.readPieces?, Tag.Piece.take?, h]

/-- The pattern of a stage of blocks does not match a tag with the style of another stage's. -/
theorem StyledAs.match?_eq_none {r s : Stage} {style : List Char} (h : StyledAs r style)
    (hs : s ∈ tagStages) (hp : letter s = 'p') (hne : r ≠ s) (atStart : Bool) (more : List Char) :
    s.pattern.match? atStart ("<para".toList ++ ([' '] ++ ("style=\"".toList ++
      (style ++ '"' :: more)))) = none := by
  have hpattern : ∃ ps, s.pattern = .tag (.literal "<para".toList :: .someBlanks ::
      .literal ("style=\"".toList ++ styleLiteral s) :: ps) := by
    cases s with
    | trim | lineBreaks | whitespace => exact absurd hs (by decide)
    | verse | note | selah => exact absurd hp (by decide)
    | _ => exact ⟨_, rfl⟩
  rcases h.dropLiteral?_eq_none hs hp hne more with hstyle | ⟨rfl, rfl⟩
  · obtain ⟨ps, hpattern⟩ := hpattern
    rw [hpattern, Tag.Pattern.match?, Tag.readPieces?_literal, Tag.readPieces?_space]
    · exact readPieces?_literal_none ((dropLiteral?_append _ _ _).trans hstyle) ps
    · simp
      rfl
  · have hsplit : "style=\"".toList ++ (['q', 'r'] ++ '"' :: more) =
        "style=\"q".toList ++ 'r' :: '"' :: more := by simp
    show Tag.Pattern.poeticLine.match? atStart _ = none
    rw [pattern_poeticLine_eq, hsplit, Tag.Pattern.match?,
      Tag.readPieces?_literal, Tag.readPieces?_space, Tag.readPieces?_literal]
    · exact readPieces?_digits_none (by decide) _ _
    · simp
      rfl

/-- After its first character a printed block has no tag but its closing tag and what is in its
content. -/
theorem para_tail {k : Char} (hk : k ≠ '/') {style body : List Char} (hs : '<' ∉ style)
    (hb : Free k body) : ∃ tail, para style body = '<' :: 'p' :: tail ∧ Free k ('p' :: tail) := by
  have hfront : '<' ∉ 'p' :: ("ara style=\"".toList ++ style ++ "\">".toList) := by simp [hs]
  have hclosing : Free k closing := Free.cons_tag (.of_noTag (by decide)) hk
  refine ⟨"ara style=\"".toList ++ style ++ "\">".toList ++ body ++ closing, ?_, ?_⟩
  · unfold para closing
    simp
  · exact ((Free.of_noTag hfront).append hb).append hclosing

theorem free_para {k : Char} (hk : k ≠ '/') (hp : k ≠ 'p') {style body : List Char}
    (hs : '<' ∉ style) (hb : Free k body) : Free k (para style body) := by
  obtain ⟨tail, htail, hfree⟩ := para_tail hk hs hb
  rw [htail]
  exact hfree.cons_tag hp

theorem source_tail {k : Char} (hk : k ≠ '/') (hv : k ≠ 'v') (e : Element) :
    ∃ tail, e.source = '<' :: 'p' :: tail ∧ Free k ('p' :: tail) := by
  have hs := e.styledAs.noTag
  cases e with
  | blankLine => exact ⟨"ara style=\"b\"/>".toList, rfl, Free.of_noTag (by decide)⟩
  | majorHeading t | heading t | oppositeLine t | chapterLabel t =>
    exact para_tail hk hs (Free.of_noTag t.noTag)
  | paragraph c | poeticLine _ _ c => exact para_tail hk hs (Free.content hv c)

/-- A tag that a stage does not look for is quiet for it, if its content is. -/
theorem quiet_of_tail {s : Stage} (hs : s ∈ tagStages) {tag tail : List Char}
    (htail : tag = '<' :: 'p' :: tail) (hfree : Free (letter s) ('p' :: tail))
    (hnone : letter s = 'p' → ∀ atStart rest, s.pattern.match? atStart (tag ++ rest) = none) :
    s.pattern.Quiet tag := by
  rw [htail] at hnone ⊢
  by_cases hp : letter s = 'p'
  · exact fun atStart => ⟨hnone hp atStart, quiet_of_free hs hfree atStart⟩
  · exact quiet_of_free hs (hfree.cons_tag hp)

/-- A printed block is quiet for the stages of other blocks, and for those of inline tags. -/
theorem quiet_source {s : Stage} (hs : s ∈ tagStages) (hv : s ≠ .verse) {e : Element}
    (h : e.stage ≠ s) : s.pattern.Quiet e.source := by
  have hk : letter s ≠ '/' ∧ letter s ≠ 'v' := by
    cases s <;> first | exact absurd rfl hv | decide
  obtain ⟨tail, htail, hfree⟩ := source_tail hk.1 hk.2 e
  refine quiet_of_tail hs htail hfree fun hp atStart rest => ?_
  obtain ⟨more, hsource⟩ := source_eq_style e rest
  rw [hsource]
  exact e.styledAs.match?_eq_none hs hp h atStart more

/-- So is a block with a content in which none of their tags starts. -/
theorem quiet_para {r s : Stage} (hs : s ∈ tagStages) {style body : List Char}
    (h : StyledAs r style) (hne : r ≠ s) (hb : Free (letter s) body) :
    s.pattern.Quiet (para style body) := by
  have hk : letter s ≠ '/' := by
    cases s <;> decide
  obtain ⟨tail, htail, hfree⟩ := para_tail hk h.noTag hb
  refine quiet_of_tail hs htail hfree fun hp atStart rest => ?_
  obtain ⟨more, hsource⟩ := para_eq_style style body rest
  rw [hsource]
  exact h.match?_eq_none hs hp hne atStart more

end Passage.Document
