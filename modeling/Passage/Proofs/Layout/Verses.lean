import Mathlib.Data.List.Induction
import Passage.Proofs.Layout.Answers
import Passage.Proofs.Verse.Accepted

/-! The pass over verse tags. Its state is the set of the numbers seen, and that is the set of the
numbers printed so far; so a tag is shown exactly if its number has not been printed before. -/

namespace Passage

/-! ## The numbers seen -/

namespace VerseSet

/-- The set of a list of numbers, inserted one after the other. -/
def ofNumbers (ns : List Nat) : VerseSet :=
  ns.foldl (fun found n => (found.insert? (.single n)).getD found) ∅

theorem ofNumbers_concat (ns : List Nat) (n : Nat) :
    ofNumbers (ns ++ [n]) =
      ((ofNumbers ns).insert? (.single n)).getD (ofNumbers ns) := by
  rw [ofNumbers, List.foldl_append]
  rfl

theorem mem_insert_single {s : VerseSet} {k n : Nat} :
    n ∈ (s.insert? (.single k)).getD s ↔ n = k ∨ n ∈ s := by
  cases hi : s.insert? (.single k) with
  | none =>
    obtain ⟨j, hj, hs⟩ := overlaps_iff.mp (insert?_eq_none_iff.mp hi)
    obtain rfl : j = k := VerseMarker.mem_single.mp hj
    constructor
    · exact .inr
    · rintro (rfl | h)
      · exact hs
      · exact h
  | some t =>
    rw [Option.getD_some, mem_of_insert? hi, VerseMarker.mem_single]

theorem mem_ofNumbers {ns : List Nat} {n : Nat} : n ∈ ofNumbers ns ↔ n ∈ ns := by
  induction ns using List.reverseRecOn with
  | nil => simp [ofNumbers]
  | append_singleton ns k ih =>
    rw [ofNumbers_concat, mem_insert_single, ih, List.mem_append, List.mem_singleton, or_comm]

end VerseSet

namespace Document

variable {suppress breaks : Bool} {ran : List Stage}

/-! ## One tag -/

theorem parse_decimal {n : Nat} (fits : n < VerseMarker.bound) :
    VerseMarker.parse (Text.decimal n) = .ok (.single n) := by
  have hlabel : (VerseMarker.single n).label = Text.decimal n := by
    simp [VerseMarker.label, VerseMarker.isRange, VerseMarker.single]
  rw [← hlabel]
  exact VerseMarker.parse_label fits

theorem takes_label (n : Nat) (fits : n < VerseMarker.bound) (styles : StyleSet) (offset : Nat) :
    ∃ x, Tag.Pattern.verse.Takes (Inline.verse n fits).source x ∧
      Occurrence.group ⟨⟨offset, x⟩, .styled (Inline.verse n fits).source styles⟩ 0 =
        .styled (Text.decimal n) styles := by
  refine ⟨_, takes_verse n fits, ?_⟩
  unfold Inline.source
  refine Occurrence.group_styled ?_
  simp
  omega

theorem insert?_ofNumbers {ns : List Nat} {n : Nat} :
    (VerseSet.ofNumbers ns).insert? (.single n) = none ↔ n ∈ ns := by
  rw [VerseSet.insert?_eq_none_iff, VerseSet.overlaps_iff]
  constructor
  · rintro ⟨k, hk, hmem⟩
    obtain rfl : k = n := VerseMarker.mem_single.mp hk
    exact VerseSet.mem_ofNumbers.mp hmem
  · intro h
    exact ⟨n, VerseMarker.mem_single.mpr rfl, VerseSet.mem_ofNumbers.mpr h⟩

theorem verseLabel_single (n : Nat) :
    verseLabel (config suppress breaks) (.single n) =
      .plain (if breaks then ['\n'] else []) ++ .styled (Text.decimal n) (.ofList [.bold]) ++
        .plain [' '] := by
  have hlabel : (VerseMarker.single n).label = Text.decimal n := by
    simp [VerseMarker.label, VerseMarker.isRange, VerseMarker.single]
  cases breaks <;> simp [verseLabel, VerseMarker.render, config, hlabel, StyledText.eq_iff_chars]

/-- A verse tag is answered with its label, or with nothing if its number has been seen. -/
theorem verseAt_verse {n : Nat} (fits : n < VerseMarker.bound) (styles : StyleSet) (ns : List Nat)
    {o : Occurrence} (ho : o.group 0 = .styled (Text.decimal n) styles) :
    verseAt (config suppress breaks) (.ofNumbers ns) o =
      ((Inline.verse n fits).layout breaks styles ns, .ofNumbers (ns ++ [n])) := by
  have hstate := VerseSet.ofNumbers_concat ns n
  have hrender : (config suppress breaks).renderVerses = true := rfl
  have hadmits : (config suppress breaks).expected.admits (.single n) = true := rfl
  unfold verseAt
  rw [ho, StyledText.text_styled, parse_decimal fits, hrender, if_pos rfl]
  cases hi : (VerseSet.ofNumbers ns).insert? (.single n) with
  | none =>
    rw [hi, Option.getD_none] at hstate
    rw [Inline.layout, if_pos (insert?_ofNumbers.mp hi), hstate]
    simp [hi]
  | some found =>
    have hnew : n ∉ ns := by
      rw [← insert?_ofNumbers, hi]
      exact Option.some_ne_none found
    rw [hi, Option.getD_some] at hstate
    rw [Inline.layout, if_neg hnew, hstate]
    simp [hi, hadmits, verseLabel_single]

/-! ## Content -/

theorem chars_styled_append (x y : List Char) (styles : StyleSet) :
    (StyledText.styled (x ++ y) styles).chars =
      (StyledText.styled x styles).chars ++ (StyledText.styled y styles).chars := by
  simp

/-- Text without verse tags is left as it is. -/
theorem rewrites_free {t : StyledText} (h : Free 'v' t.text) {offset : Nat} {found : VerseSet} :
    Rewrites .verse (verseAt (config suppress breaks)) offset found t.chars t.chars found := by
  refine .of_quiet ?_
  rw [← StyledText.text_eq_map_chars]
  exact quiet_of_free (s := .verse) (by decide) h

theorem rewrites_inlines (styles : StyleSet) (is : List Inline) (offset : Nat) (ns : List Nat) :
    Rewrites .verse (verseAt (config suppress breaks)) offset (.ofNumbers ns)
      (StyledText.styled (is.flatMap Inline.source) styles).chars
      (layoutInlines breaks styles ns is).chars (.ofNumbers (ns ++ is.flatMap Inline.numbers)) := by
  induction is generalizing offset ns with
  | nil =>
    rw [List.flatMap_nil, List.flatMap_nil, List.append_nil]
    exact .nil
  | cons i is ih =>
    rw [List.flatMap_cons, List.flatMap_cons, chars_styled_append, layoutInlines,
      StyledText.chars_append, ← List.append_assoc]
    refine Rewrites.append ?_ (ih _ _)
    cases i with
    | text cs _ noTag =>
      rw [Inline.layout, Inline.numbers, List.append_nil]
      refine rewrites_free ?_
      rw [StyledText.text_styled]
      exact .of_noTag noTag
    | verse n fits =>
      obtain ⟨x, htakes, hgroup⟩ := takes_label n fits styles offset
      refine Rewrites.of_takes (e := x) ?_ (verseAt_verse fits styles ns ?_)
      · rwa [← StyledText.text_eq_map_chars, StyledText.text_styled]
      · rwa [StyledText.ofChars_chars]

theorem rewrites_content (styles : StyleSet) (c : Content) {x y : List Char} (hx : '<' ∉ x)
    (hy : '<' ∉ y) (offset : Nat) (ns : List Nat) :
    Rewrites .verse (verseAt (config suppress breaks)) offset (.ofNumbers ns)
      (.plain x ++ Content.draft styles ns c ++ .plain y : StyledText).chars
      (.plain x ++ Content.layout breaks styles ns c ++ .plain y : StyledText).chars
      (.ofNumbers (ns ++ c.numbers)) := by
  have hplain {z : List Char} (hz : '<' ∉ z) : Free 'v' (StyledText.plain z).text := by
    rw [StyledText.text_plain]
    exact .of_noTag hz
  simp only [StyledText.chars_append]
  exact ((rewrites_free (hplain hx)).append (rewrites_inlines styles c.inlines _ ns)).append
    (rewrites_free (hplain hy))

/-! ## Blocks -/

/-- All blocks but chapter labels are laid out. -/
def LabelsLeft (ran : List Stage) : Prop :=
  ∀ e : Element, e.stage ∉ ran → e.stage = .chapterLabel

theorem rewrites_form (hleft : LabelsLeft ran) (hverse : .verse ∉ ran) (d r : List Element)
    (e : Element) (offset : Nat) :
    Rewrites .verse (verseAt (config suppress breaks)) offset
      (.ofNumbers (d.flatMap Element.numbers))
      (e.form breaks ran d r).chars (e.form breaks (ran ++ [.verse]) d r).chars
      (.ofNumbers ((d ++ [e]).flatMap Element.numbers)) := by
  have hdraft : Content.form breaks ran = Content.draft := if_neg hverse
  have hlaid : Content.form breaks (ran ++ [.verse]) = Content.layout breaks := if_pos (by simp)
  rw [List.flatMap_append, List.flatMap_singleton]
  by_cases hran : e.stage ∈ ran
  · have hfree : Free 'v' (e.layoutWith (fun _ _ _ => ∅) d r).text :=
      free_layoutWith (fun _ _ _ => .of_noTag List.not_mem_nil) d r e
    rw [Element.form, if_pos hran, Element.form, if_pos (List.mem_append_left _ hran), hdraft,
      hlaid]
    cases e with
    | paragraph c =>
      refine rewrites_content ∅ c ?_ (by decide) offset _
      split <;> decide
    | poeticLine level fits c =>
      refine rewrites_content (.ofList [.normal]) c ?_ ?_ offset _
      · unfold leadingBreak
        split <;> simp
      · unfold trailingBreak
        split <;> decide
    | majorHeading | heading | blankLine | oppositeLine | chapterLabel =>
      simp only [Element.numbers, List.append_nil]
      exact rewrites_free hfree
  · have hlabel := hleft e hran
    have hlater : e.stage ∉ ran ++ [.verse] := by
      rw [hlabel] at hran ⊢
      simp [hran]
    rw [Element.form, if_neg hran, Element.form, if_neg hlater]
    cases e with
    | chapterLabel t =>
      simp only [Element.numbers, List.append_nil]
      refine rewrites_free ?_
      rw [StyledText.text_plain]
      exact free_para (by decide) (by decide) (by decide) (Free.of_noTag t.noTag)
    | _ => cases hlabel

/-! ## The pass -/

theorem apply_verse (hleft : LabelsLeft ran) (hverse : .verse ∉ ran) (doc : List Element) :
    Stage.verse.apply (config suppress breaks) (spread (Element.form breaks ran) [] doc) =
      spread (Element.form breaks (ran ++ [.verse])) [] doc := by
  have hpass := @rewrites_spread (Element.form breaks ran) (Element.form breaks (ran ++ [.verse]))
    VerseSet .verse (verseAt (config suppress breaks))
    (fun done => .ofNumbers (done.flatMap Element.numbers)) [] doc
    (fun d e r _ => rewrites_form hleft hverse d r e _)
  have htext : (spread (Element.form breaks ran) [] doc).rewritten .verse
      (verseAt (config suppress breaks)) ∅ =
        .ofChars (spread (Element.form breaks (ran ++ [.verse])) [] doc).chars :=
    hpass.rewritten_eq.1
  have hrender : (config suppress breaks).renderVerses = true := rfl
  have hmissing (found : VerseSet) : missingLabels (config suppress breaks) found = ∅ := rfl
  rw [Stage.apply_verse, verseOutput, hrender, if_pos rfl, hmissing, StyledText.empty_append,
    htext, StyledText.ofChars_chars]

end Document

end Passage
