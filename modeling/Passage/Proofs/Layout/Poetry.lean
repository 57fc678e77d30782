import Passage.Proofs.Layout.Answers

/-! Poetic lines among their neighbours. When poetic lines are laid out, the blocks that bring
their own line breaks have been laid out and the open ones still stand as tags. So the text before
a line ends in a tag exactly if an open block comes before it, and the text after it holds a tag
exactly if an open block comes later. -/

namespace Passage

/-! ## Literals further on -/

namespace Text

variable {l x : List Char}

theorem holds_append (hx : Tag.Nowhere (dropLiteral? l) x) (y : List Char) :
    holds l (x ++ y) = holds l y := by
  induction x with
  | nil => rfl
  | cons c x ih =>
    obtain ⟨hc, hx⟩ := hx
    have hskip : holds l (c :: (x ++ y)) = holds l (x ++ y) := by
      simp [holds, beforeLiteral?, hc y]
    rw [List.cons_append, hskip, ih hx]

theorem holds_of_startsWith {c : Char} {cs : List Char} (h : startsWith l (c :: cs) = true) :
    holds l (c :: cs) = true := by
  rw [startsWith] at h
  simp [holds, beforeLiteral?, h]

theorem isBlank_of_mem_upperChar {c d : Char} (h : d ∈ upperChar c) (hc : isBlank c = false) :
    isBlank d = false := by
  rcases le_of_mem_upperChar h with rfl | rfl | hle
  · exact hc
  · decide
  · rw [Bool.eq_false_iff]
    intro hb
    have hnat := toNat_of_isWhite (isWhite_of_isBlank hb)
    simp only [isBlank, Bool.or_eq_true, beq_iff_eq] at hb
    rcases hb with ((((rfl | rfl) | rfl) | rfl) | rfl) | rfl <;> exact absurd hle (by decide)

end Text

theorem Document.Free.para {x : List Char} (h : Free 'p' x) :
    Tag.Nowhere (Text.dropLiteral? "<para".toList) x :=
  h.dropLiteral? ['a', 'r', 'a']

namespace Poetry

theorem needsLeadingBreak_eq {cs : List Char} (h : cs.getLast? ≠ some ' ') :
    needsLeadingBreak cs = cs.getLast?.any (· != '\n') := by
  rcases cs.eq_nil_or_concat with rfl | ⟨cs, c, rfl⟩
  · rfl
  · have hc : (c == ' ') = false := by simpa using h
    simp [needsLeadingBreak, hc]

/-- A text that ends in a tag after something open, and ends a line after anything else. -/
theorem needsLeadingBreak_of_getLast? {α : Type} {cs : List Char} {prev : Option α}
    {isOpen : α → Bool} (h : cs.getLast? = prev.map fun a => if isOpen a then '>' else '\n') :
    needsLeadingBreak cs = prev.any isOpen := by
  have hspace : cs.getLast? ≠ some ' ' := by
    rw [h]
    cases prev with
    | none => simp
    | some a => cases ha : isOpen a <;> simp [ha]
  rw [needsLeadingBreak_eq hspace, h, Option.any_map]
  refine congrArg (prev.any ·) (funext fun a => ?_)
  cases isOpen a <;> simp

theorem needsTrailingBreak_of_break (cs : List Char) : needsTrailingBreak ('\n' :: cs) = false := by
  simp [needsTrailingBreak]

theorem needsTrailingBreak_of_startsWith {cs : List Char}
    (h : Text.startsWith "<para".toList cs = true) : needsTrailingBreak cs = false := by
  obtain ⟨rest, hrest⟩ := Option.isSome_iff_exists.mp h
  have hcs := Text.dropLiteral?_eq_some_iff.mp hrest
  have hdrop : cs.dropWhile (· == ' ') = cs := by
    rw [hcs]
    simp
  unfold needsTrailingBreak
  simp only [hdrop, h, Bool.not_true, Bool.and_false, Bool.false_and]

/-- After a heading a line break has been seen, and only a later tag is asked for. -/
theorem needsTrailingBreak_of_heading {c : Char} {cs : List Char} (hc : Text.isBlank c = false)
    (hcs : '<' ∉ c :: cs) (rest : List Char) :
    needsTrailingBreak (c :: cs ++ '\n' :: rest) = Text.holds "<para".toList rest := by
  have hspace : c ≠ ' ' := by
    rintro rfl
    cases hc
  have hbreak : c ≠ '\n' := by
    rintro rfl
    cases hc
  have htag : Text.startsWith "<para".toList (c :: cs ++ '\n' :: rest) = false := by
    have hne : '<' ≠ c := by
      rintro rfl
      exact hcs List.mem_cons_self
    simp [Text.startsWith, Text.dropLiteral?, hne]
  have hholds : Text.holds "<para".toList (c :: cs ++ '\n' :: rest) =
      Text.holds "<para".toList rest := by
    have hline : '<' ∉ c :: cs ++ ['\n'] := by simpa using hcs
    have hskip := Text.holds_append (Document.Free.of_noTag hline).para rest
    rwa [List.append_assoc, List.singleton_append] at hskip
  have hdrop : (c :: cs ++ '\n' :: rest).dropWhile (· == ' ') = c :: cs ++ '\n' :: rest := by
    simp [hspace]
  unfold needsTrailingBreak
  simp only [hdrop, htag, hholds]
  simp [hbreak]

end Poetry

namespace Document

variable {breaks : Bool} {ran : List Stage}

/-! ## The neighbours of a line -/

/-- The open blocks, and no others, are still to be laid out. -/
def OpenLeft (ran : List Stage) : Prop :=
  ∀ e : Element, e.stage ∈ ran ↔ e.isOpen = false

theorem OpenLeft.not_mem (hran : OpenLeft ran) {e : Element} (he : e.isOpen = true) :
    e.stage ∉ ran := by
  rw [hran, he]
  exact Bool.noConfusion

theorem startsWith_source (e : Element) (rest : List Char) :
    Text.startsWith "<para".toList (e.source ++ rest) = true := by
  obtain ⟨more, hsource⟩ := source_eq_style e rest
  rw [Text.startsWith, Option.isSome_iff_exists]
  exact ⟨_, Text.dropLiteral?_eq_some_iff.mpr hsource⟩

/-- A tag of a block is left after a place exactly if an open block is. -/
theorem holds_spread (hran : OpenLeft ran) (done rest : List Element) :
    Text.holds "<para".toList (spread (Element.form breaks ran) done rest).text =
      rest.any Element.isOpen := by
  induction rest generalizing done with
  | nil => rfl
  | cons e rest ih =>
    rw [spread, StyledText.text_append, List.any_cons]
    by_cases hopen : e.isOpen = true
    · have hraw := hran.not_mem hopen
      obtain ⟨tail, htail, -⟩ := source_tail (k := 'n') (by decide) (by decide) e
      have hstart := startsWith_source e (spread (Element.form breaks ran) (done ++ [e]) rest).text
      rw [Element.form, if_neg hraw, StyledText.text_plain, hopen, Bool.true_or]
      rw [htail] at hstart ⊢
      exact Text.holds_of_startsWith hstart
    · have hopen : e.isOpen = false := by simpa using hopen
      have hfree : Free 'p' (e.form breaks ran done rest).text := by
        rw [Element.form, if_pos ((hran e).mpr hopen)]
        exact free_layoutWith (free_form_content (by decide)) done rest e
      rw [Text.holds_append hfree.para, ih, hopen, Bool.false_or]

theorem needsLeadingBreak_before (hran : OpenLeft ran) (done rest : List Element) :
    Poetry.needsLeadingBreak (before (Element.form breaks ran) done rest).text =
      done.getLast?.any Element.isOpen := by
  have hlast (e : Element) :
      (if e.stage ∈ ran then '\n' else '>') = if e.isOpen then '>' else '\n' := by
    have he := hran e
    cases hopen : e.isOpen <;> simp [hopen] at he <;> simp [he]
  refine Poetry.needsLeadingBreak_of_getLast? ?_
  rw [getLast?_before (fun e he => hran.not_mem he) done rest]
  exact congrArg (Option.map · done.getLast?) (funext hlast)

/-- A heading that is laid out is a line of text. -/
theorem exists_text_heading (breaks : Bool) {e : Element} (he : e.isHeading = true)
    (hran : e.stage ∈ ran) (done rest : List Element) :
    ∃ c cs, (e.form breaks ran done rest).text = c :: cs ++ ['\n'] ∧ Text.isBlank c = false ∧
      '<' ∉ c :: cs := by
  have hline {x : List Char} {styles : StyleSet} (hx : x ≠ []) (hlt : '<' ∉ x)
      (hh : ∀ c ∈ x.head?, Text.isBlank c = false) :
      ∃ c cs, (StyledText.styled x styles ++ .plain ['\n']).text = c :: cs ++ ['\n'] ∧
        Text.isBlank c = false ∧ '<' ∉ c :: cs := by
    obtain ⟨c, cs, rfl⟩ := List.exists_cons_of_ne_nil hx
    exact ⟨c, cs, by simp, hh c rfl, hlt⟩
  rw [Element.form, if_pos hran]
  cases e with
  | heading t => exact hline t.ne_nil t.noTag t.tidy.isBlank_head
  | majorHeading t =>
    obtain ⟨c, cs, hcs⟩ := List.exists_cons_of_ne_nil t.ne_nil
    obtain ⟨d, ds, hd⟩ := List.exists_cons_of_ne_nil (Text.upperChar_ne_nil c)
    have hupper : Text.upper t.text = d :: (ds ++ Text.upper cs) := by
      rw [hcs, Text.upper, List.flatMap_cons, hd]
      rfl
    refine hline (by simp [hupper]) (noTag_upper t.noTag) ?_
    rw [hupper]
    rintro _ ⟨⟩
    have hc : Text.isBlank c = false := t.tidy.isBlank_head c (by simp [hcs])
    exact Text.isBlank_of_mem_upperChar (by simp [hd]) hc
  | _ => cases he

theorem needsTrailingBreak_spread (hran : OpenLeft ran) {done : List Element} (hd : done ≠ [])
    (rest : List Element) :
    Poetry.needsTrailingBreak (spread (Element.form breaks ran) done rest).text =
      (rest.head?.any Element.isHeading && rest.any Element.isOpen) := by
  cases rest with
  | nil => rfl
  | cons e rest =>
    rw [spread, StyledText.text_append, List.head?_cons, Option.any_some, List.any_cons]
    by_cases hopen : e.isOpen = true
    · have hhead : e.isHeading = false := by
        cases e <;> first | rfl | cases hopen
      rw [Element.form, if_neg (hran.not_mem hopen), StyledText.text_plain,
        Poetry.needsTrailingBreak_of_startsWith (startsWith_source e _), hhead, Bool.false_and]
    · have hopen : e.isOpen = false := by simpa using hopen
      have hlaid : e.stage ∈ ran := (hran e).mpr hopen
      by_cases hhead : e.isHeading = true
      · obtain ⟨c, cs, htext, hc, hlt⟩ :=
          exists_text_heading breaks hhead hlaid done rest
        rw [htext, List.append_assoc, List.singleton_append,
          Poetry.needsTrailingBreak_of_heading hc hlt, holds_spread hran, hhead, hopen,
          Bool.true_and, Bool.false_or]
      · have hhead : e.isHeading = false := by simpa using hhead
        have hbreak : ∃ cs, (e.form breaks ran done rest).text = '\n' :: cs := by
          rw [Element.form, if_pos hlaid]
          cases e with
          | paragraph c => exact ⟨_, by simp [Element.layoutWith, hd]; rfl⟩
          | blankLine => exact ⟨['\n'], by simp [Element.layoutWith]⟩
          | majorHeading | heading => cases hhead
          | poeticLine | oppositeLine | chapterLabel => cases hopen
        obtain ⟨cs, htext⟩ := hbreak
        rw [htext, List.cons_append, Poetry.needsTrailingBreak_of_break, hhead, Bool.false_and]

/-! ## The pass -/

theorem takes_line {digits : List Char} (hne : digits ≠ [])
    (hdigits : ∀ c ∈ digits, Text.isDecimalDigit c = true) {body : List Char}
    (hb : Tag.Nowhere (Text.dropLiteral? closing) body)
    (hh : ∀ c ∈ body.head?, Text.isBlank c = false) (offset : Nat) :
    ∃ x, Tag.Pattern.poeticLine.Takes (para ('q' :: digits) body) x ∧
      Occurrence.group ⟨⟨offset, x⟩, .plain (para ('q' :: digits) body)⟩ 0 = .plain digits ∧
      Occurrence.group ⟨⟨offset, x⟩, .plain (para ('q' :: digits) body)⟩ 1 = .plain body := by
  refine ⟨_, takes_poeticLine hne hdigits hb hh, ?_, ?_⟩
  · have hsplit : para ('q' :: digits) body =
        "<para style=\"q".toList ++ digits ++ ("\">".toList ++ body ++ closing) := by
      unfold para closing
      simp
    rw [hsplit]
    refine Occurrence.group_styled ?_
    simp
    omega
  · rw [para_eq]
    exact Occurrence.group_styled rfl

theorem level_decimal {level : Nat} (fits : level < 2 ^ 64) :
    Poetry.level (Text.decimal level) = min 16 level := by
  have hread : Text.readDecimal? (Nat.pow 2 64) (Text.decimal level) = some level :=
    Text.readDecimal?_decimal fits
  rw [Poetry.level, hread]
  rfl

theorem opensWithVerse_verse (n : Nat) (fits : n < VerseMarker.bound) (rest : List Char) :
    Poetry.opensWithVerse ((Inline.verse n fits).source ++ rest) = true := by
  have hsource : ∃ more, (Inline.verse n fits).source ++ rest = "<verse number".toList ++ more := by
    refine ⟨"=\"".toList ++ Text.decimal n ++ "\" style=\"v\" />".toList ++ rest, ?_⟩
    unfold Inline.source
    simp
  obtain ⟨more, hsource⟩ := hsource
  rw [Poetry.opensWithVerse, Text.startsWith, Text.dropLiteral?_eq_some_iff.mpr hsource]
  rfl

theorem opensWithVerse_text {cs : List Char} (hne : cs ≠ []) (hlt : '<' ∉ cs) (rest : List Char) :
    Poetry.opensWithVerse (cs ++ rest) = false := by
  obtain ⟨d, ds, rfl⟩ := List.exists_cons_of_ne_nil hne
  have hd : '<' ≠ d := by
    rintro rfl
    exact hlt List.mem_cons_self
  simp [Poetry.opensWithVerse, Text.startsWith, Text.dropLiteral?, hd]

theorem opensWithVerse_source (c : Content) :
    Poetry.opensWithVerse c.source = c.opensWithVerse := by
  obtain ⟨i, is, hi⟩ := List.exists_cons_of_ne_nil c.ne_nil
  rw [Content.opensWithVerse, Content.source, hi, List.flatMap_cons]
  cases i with
  | text cs ne_nil noTag => exact opensWithVerse_text ne_nil noTag _
  | verse n fits => exact opensWithVerse_verse n fits _

theorem indentWidth_eq {level : Nat} (fits : level < 2 ^ 64) (c : Content) :
    Poetry.indentWidth (Poetry.level (Text.decimal level)) c.source = indentWidth level c := by
  have hpos : decide (0 < min 16 level) = decide (0 < level) := by
    rw [decide_eq_decide]
    omega
  rw [Poetry.indentWidth, indentWidth, level_decimal fits, opensWithVerse_source, hpos]

theorem apply_poeticLine (config : RenderConfig) (doc : List Element) (hleft : OpenLeft ran)
    (hran : .poeticLine ∉ ran) (hverse : .verse ∉ ran) :
    Stage.poeticLine.apply config (spread (Element.form breaks ran) [] doc) =
      spread (Element.form breaks (ran ++ [.poeticLine])) [] doc := by
  refine apply_form (by decide) (by decide) hran config ?_
  intro d e r offset hdoc he ho
  cases e with
  | poeticLine level fits c =>
    obtain ⟨x, htakes, hlevel, hcontent⟩ := takes_line (VerseMarker.decimal_ne_nil level)
      (fun _ hc => isDecimalDigit_of_mem_decimal hc) (nowhere_closing c) c.tidy.isBlank_head offset
    refine ⟨x, htakes, ?_⟩
    have hraw : Element.form breaks ran d r (.poeticLine level fits c) =
        .plain (para ('q' :: Text.decimal level) c.source) := if_neg hran
    have htext := congrArg StyledText.text
      (spread_split (Element.form breaks ran) d (.poeticLine level fits c) r)
    rw [hdoc, hraw, StyledText.text_append, StyledText.text_append, StyledText.text_plain] at htext
    rw [← StyledText.length_text] at ho
    have hlead : (spread (Element.form breaks ran) [] doc).text.take offset =
        (before (Element.form breaks ran) d (.poeticLine level fits c :: r)).text := by
      rw [htext, ho, List.take_left]
    have htrail : (spread (Element.form breaks ran) [] doc).text.drop (offset + x.length) =
        (spread (Element.form breaks ran) (d ++ [.poeticLine level fits c]) r).text := by
      rw [htext, ho, htakes.length_eq, ← List.drop_drop, List.drop_left, List.drop_left]
    unfold Element.source
    simp only [Stage.rule]
    unfold Poetry.lineAt Tag.Match.span
    simp only [hlead, htrail, hlevel, hcontent, needsLeadingBreak_before hleft,
      needsTrailingBreak_spread hleft (List.append_ne_nil_of_right_ne_nil d (List.cons_ne_nil _ _)),
      StyledText.text_plain, StyledText.addStyles_plain, StyledText.text_styled,
      indentWidth_eq fits]
    rw [Element.layoutWith, Content.form, if_neg hverse]
    rfl
  | _ => cases he

end Document

end Passage
