import Passage.Proofs.Poetry.Breaks

/-! The indent of poetic lines. A level is a digit string of any length; the reader takes it where
the number fits a machine word, and counts it as 0 where it does not. Up to there the indent is four
spaces for each level, sixteen levels at most, and two spaces less before a verse tag
(`indent_follows_level`). A level past the machine word has no indent at all
(`level_past_word_not_indented`). -/

namespace Passage.Poetry

open Laid (put copy)

/-- A string of ASCII digits, which may start with zeros, stands for a number. -/
structure Denotes (digits : List Char) (n : Nat) : Prop where
  ne_nil : digits ≠ []
  isDigit : ∀ c ∈ digits, c.isDigit = true
  value : Nat.ofDigitChars 10 digits 0 = n

variable {digits text : List Char} {m : Tag.Match} {n : Nat}

theorem readDecimal?_of_denotes (h : Denotes digits n) (bound : Nat) :
    Text.readDecimal? bound digits = if n < bound then some n else none := by
  split
  · next hlt => exact Text.readDecimal?_eq_some_iff.mpr ⟨h.ne_nil, h.isDigit, h.value, hlt⟩
  · next hge =>
    cases hread : Text.readDecimal? bound digits with
    | none => rfl
    | some k =>
      obtain ⟨-, -, hvalue, hlt⟩ := Text.readDecimal?_eq_some_iff.mp hread
      exact absurd (h.value.symm.trans hvalue ▸ hlt) hge

/-- Where the reader gives up and where the levels are capped do not meet: past the machine word the
level is 0 and not the deepest one. -/
theorem level_of_denotes (h : Denotes digits n) :
    level digits = if n < 2 ^ 64 then min n 16 else 0 := by
  rw [level, readDecimal?_of_denotes h]
  change min 16 ((if n < 2 ^ 64 then some n else none).getD 0) = _
  split
  · exact Nat.min_comm 16 n
  · rfl

theorem opensWithVerse_iff {cs : List Char} :
    opensWithVerse cs = true ↔ "<verse number".toList <+: cs := by
  rw [opensWithVerse, Text.startsWith, Option.isSome_iff_exists]
  constructor
  · intro h
    obtain ⟨rest, hrest⟩ := h
    exact ⟨rest, (Text.dropLiteral?_eq_some_iff.mp hrest).symm⟩
  · intro h
    obtain ⟨rest, hrest⟩ := h
    exact ⟨rest, Text.dropLiteral?_eq_some_iff.mpr hrest.symm⟩

theorem indentAt_eq (h : Denotes (levelText text m) n) :
    indentAt text m = if n < 2 ^ 64 then
      4 * min n 16 - (if 0 < n ∧ "<verse number".toList <+: Text.slice text (content m) then 2
        else 0)
      else 0 := by
  rw [indentAt, indentWidth, level_of_denotes h]
  simp only [← opensWithVerse_iff, Bool.and_eq_true, decide_eq_true_eq]
  by_cases hfits : n < 2 ^ 64
  · simp only [if_pos hfits]
    have hpos : 0 < min n 16 ↔ 0 < n := by omega
    simp only [hpos]
    split <;> rfl
  · simp only [if_neg hfits, Nat.lt_irrefl, false_and, if_false, Nat.mul_zero]

/-- A deeper line is indented as far as a line above it, if its content does not open with a verse
tag. -/
theorem indentAt_mono {text' : List Char} {m' : Tag.Match} {n' : Nat}
    (h : Denotes (levelText text m) n) (h' : Denotes (levelText text' m') n') (hle : n ≤ n')
    (hfits : n' < 2 ^ 64) (hverse : ¬ "<verse number".toList <+: Text.slice text' (content m')) :
    indentAt text m ≤ indentAt text' m' := by
  have hdeeper : indentAt text' m' = 4 * min n' 16 := by
    rw [indentAt_eq h', if_pos hfits, if_neg fun hand => hverse hand.2, Nat.sub_zero]
  rw [indentAt_eq h, if_pos (Nat.lt_of_le_of_lt hle hfits), hdeeper]
  omega

/-- **The indent of a line follows its level.** What is written for the line is a line break or
nothing, the indent, the content, and again a line break or nothing. The indent is four spaces for
each level up to sixteen, and two fewer for a level above 0 whose content opens with a verse tag,
where the level fits a machine word; else there is none. And no line is indented further than a
deeper one within the machine word whose content does not open with a verse tag. -/
theorem indent_follows_level (config : RenderConfig) (t : StyledText) (m : Tag.Match) (n : Nat)
    (before after : List Tag.Match) (hms : lines t.text = before ++ m :: after)
    (hn : Denotes (levelText t.text m) n) :
    (Stage.poeticLine.run config (.always false) t).isSome ∧
    (∀ polls out, Stage.poeticLine.run config polls t = some out →
      ∃ lead trail, lead ∈ [[], ['\n']] ∧ trail ∈ [[], ['\n']] ∧
        out.chars = (laidBetween t 0 m.start before ++
          (put lead ++ put (List.replicate (indentAt t.text m) ' ') ++
            copy t [.normal] (content m) ++ put trail) ++
          laidBetween t m.span.stop t.text.length after).map Laid.char) ∧
    (n < 2 ^ 64 → indentAt t.text m = 4 * min n 16 -
      (if 0 < n ∧ "<verse number".toList <+: Text.slice t.text (content m) then 2 else 0)) ∧
    (2 ^ 64 ≤ n → indentAt t.text m = 0) ∧
    ∀ (t' : StyledText) (m' : Tag.Match) (n' : Nat), m' ∈ lines t'.text →
      Denotes (levelText t'.text m') n' → n ≤ n' → n' < 2 ^ 64 →
      ¬ "<verse number".toList <+: Text.slice t'.text (content m') →
      indentAt t.text m ≤ indentAt t'.text m' := by
  refine ⟨?_, ?_, ?_, ?_, ?_⟩
  · rw [Stage.run_always]
    rfl
  · intro polls out hout
    refine ⟨leadAt t.text m, trailAt t.text m, ?_, ?_, ?_⟩
    · rw [leadAt]
      split <;> simp
    · rw [trailAt]
      split <;> simp
    · rw [Stage.eq_apply_of_run hout, ← char_laid, laid, hms, laidBetween_append, lineLaid]
  · intro hfits
    rw [indentAt_eq hn, if_pos hfits]
  · intro hpast
    rw [indentAt_eq hn, if_neg (Nat.not_lt.mpr hpast)]
  · intro t' m' n' _ hn' hle hfits hverse
    exact indentAt_mono hn hn' hle hfits hverse

theorem indent_follows_level_before_verse :
    lines "<para style=\"q003\"><verse number=\"1\" style=\"v\" />x</para>".toList =
      [⟨0, ⟨57, [⟨14, 17⟩, ⟨19, 50⟩]⟩⟩] ∧
    indentAt "<para style=\"q003\"><verse number=\"1\" style=\"v\" />x</para>".toList
      ⟨0, ⟨57, [⟨14, 17⟩, ⟨19, 50⟩]⟩⟩ = 10 := by
  have h := indent_follows_level {}
    (.plain "<para style=\"q003\"><verse number=\"1\" style=\"v\" />x</para>".toList)
    ⟨0, ⟨57, [⟨14, 17⟩, ⟨19, 50⟩]⟩⟩ 3 [] [] (by decide +kernel)
    ⟨by decide +kernel, List.all_eq_true.mp (by decide +kernel), by decide +kernel⟩
  have hindent := h.2.2.1 (by omega)
  rw [StyledText.text_plain] at hindent
  refine ⟨by decide +kernel, ?_⟩
  rw [hindent]
  decide +kernel

/-- One level further than the machine word goes, the deepest indent is lost. -/
theorem level_past_word_not_indented :
    (∃ m ∈ lines "<para style=\"q18446744073709551616\">x</para>".toList,
      Denotes (levelText "<para style=\"q18446744073709551616\">x</para>".toList m)
        18446744073709551616) ∧
    (Stage.poeticLine.run {} (.always false)
      (.plain "<para style=\"q18446744073709551616\">x</para>".toList)).map StyledText.text =
        some ['x'] ∧
    (Stage.poeticLine.run {} (.always false)
      (.plain "<para style=\"q18446744073709551615\">x</para>".toList)).map StyledText.text =
        some (List.replicate 64 ' ' ++ ['x']) := by
  refine ⟨⟨⟨0, ⟨44, [⟨14, 34⟩, ⟨36, 37⟩]⟩⟩, ?_, ?_, List.all_eq_true.mp ?_, ?_⟩, ?_, ?_⟩
  all_goals decide +kernel

end Passage.Poetry
