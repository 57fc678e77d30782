import Passage.Proofs.Render.Pins
import Passage.Proofs.Tag.Opening

/-! The setting for headings that open the text, as the pass over major headings has it, on any
styled text. Only the first heading can open the text, so the answers to the others do not look at
the setting. The pass without the setting writes the line of that heading and then what the pass
with it gives, and that line is made of what the query finds (`run_majorSectionHeading`). -/

namespace Passage

open Stage (majorSectionHeading)

variable {t : StyledText} {m : Tag.Match} {ms : List Tag.Match}

/-- The configuration with the setting for headings that open the text. -/
def RenderConfig.suppressing (config : RenderConfig) (suppress : Bool) : RenderConfig :=
  { config with suppressLeadingHeading := suppress }

def headingEdits (suppress : Bool) (t : StyledText) (ms : List Tag.Match) :
    List (Tag.Match × StyledText) :=
  ms.map fun m => (m, Block.majorHeadingAt suppress (t.occurrence m))

theorem majorHeadingAt_of_pos {i : Nat} (hi : 0 < i) (suppress : Bool) (e : Tag.Extent)
    (u : StyledText) : Block.majorHeadingAt suppress ⟨⟨i, e⟩, u⟩ =
      Block.majorHeading (Occurrence.group ⟨⟨i, e⟩, u⟩ 0) := by
  have hplace : (i == 0) = false := by
    rw [beq_eq_false_iff_ne]
    omega
  rw [Block.majorHeadingAt]
  simp only [hplace, Bool.and_false]
  rfl

/-- Past the start of the text the answers do not look at the setting. -/
theorem headingEdits_of_pos (h : ∀ m ∈ ms, 0 < m.start) :
    headingEdits true t ms = headingEdits false t ms := by
  refine List.map_congr_left fun m hm => ?_
  rw [StyledText.occurrence, majorHeadingAt_of_pos (h m hm), majorHeadingAt_of_pos (h m hm)]

theorem chars_apply_majorSectionHeading (config : RenderConfig) (suppress : Bool)
    (t : StyledText) :
    (majorSectionHeading.apply (config.suppressing suppress) t).chars =
      weave t.chars 0 (headingEdits suppress t (majorSectionHeading.pattern.matches t.text)) :=
  Stage.chars_apply (by decide) _ t

/-- The headings after the first one are past the start of the text. -/
theorem pos_of_later (h : majorSectionHeading.pattern.matches t.text = m :: ms) :
    ∀ n ∈ ms, 0 < n.start := by
  intro n hn
  have hf := majorSectionHeading.pattern.following_matches t.text
  rw [h] at hf
  have hm : m ∈ majorSectionHeading.pattern.matches t.text := h ▸ List.mem_cons_self
  have hlen := Tag.length_pos_of_mem_matches hm
  have hle := hf.2.le_start n hn
  simp only [Tag.Match.span] at hle
  omega

/-- The query gives the content of a heading that opens the text. -/
theorem leadingHeading_of_find? (hfind : majorSectionHeading.pattern.find? t.text = some m)
    (hstart : m.start = 0) :
    ∃ s, m.group? 0 = some s ∧ leadingHeading t = t.extract s ∧
      leadingHeading t = (t.occurrence m).group 0 := by
  have hmem : m ∈ majorSectionHeading.pattern.matches t.text := List.mem_of_mem_head? hfind
  obtain ⟨-, hm⟩ := Tag.Pattern.match?_of_mem_matches hmem
  obtain ⟨opening, content, rest, -, -, he⟩ := Tag.match?_para_eq_some_iff.mp hm
  obtain ⟨s, hs⟩ : ∃ s, m.group? 0 = some s := by
    rw [Tag.Match.group?, he]
    exact ⟨_, rfl⟩
  have hquery : leadingHeading t = t.extract s := by
    rw [leadingHeading, hfind]
    simp only [hs, if_pos hstart]
  refine ⟨s, hs, hquery, ?_⟩
  rw [hquery, StyledText.eq_iff_chars, StyledText.chars_extract, StyledText.chars_group hmem, hs]
  rfl

theorem leadingHeading_of_not_start
    (h : ∀ m, majorSectionHeading.pattern.find? t.text = some m → m.start ≠ 0) :
    leadingHeading t = ∅ := by
  rw [leadingHeading]
  cases hfind : majorSectionHeading.pattern.find? t.text with
  | none => rfl
  | some m => exact if_neg (h m hfind)

/-- The pass writes the line of a heading that opens the text, or leaves it out. -/
theorem apply_majorSectionHeading_of_start (config : RenderConfig)
    (hfind : majorSectionHeading.pattern.find? t.text = some m) (hstart : m.start = 0) :
    majorSectionHeading.apply (config.suppressing false) t =
      Block.majorHeading (leadingHeading t) ++
        majorSectionHeading.apply (config.suppressing true) t := by
  obtain ⟨ms, hms⟩ := List.head?_eq_some_iff.mp hfind
  obtain ⟨-, -, -, hgroup⟩ := leadingHeading_of_find? hfind hstart
  have hplace : ((t.occurrence m).found.start == 0) = true := by
    rw [StyledText.occurrence, hstart]
    rfl
  rw [StyledText.eq_iff_chars, StyledText.chars_append, chars_apply_majorSectionHeading,
    chars_apply_majorSectionHeading, hms]
  simp only [headingEdits, List.map_cons, weave, hstart, Nat.sub_zero, List.take_zero,
    List.nil_append, Block.majorHeadingAt, hplace, Bool.true_and, Bool.false_and]
  rw [hgroup]
  exact congrArg (_ ++ weave t.chars _ ·) (headingEdits_of_pos (pos_of_later hms)).symm

/-- Without a heading that opens the text the pass does not look at the setting. -/
theorem apply_majorSectionHeading_of_not_start (config : RenderConfig)
    (h : ∀ m, majorSectionHeading.pattern.find? t.text = some m → m.start ≠ 0) :
    majorSectionHeading.apply (config.suppressing false) t =
      majorSectionHeading.apply (config.suppressing true) t := by
  rw [StyledText.eq_iff_chars, chars_apply_majorSectionHeading, chars_apply_majorSectionHeading]
  refine congrArg _ (headingEdits_of_pos fun m hm => ?_).symm
  cases hms : majorSectionHeading.pattern.matches t.text with
  | nil =>
    rw [hms] at hm
    exact absurd hm List.not_mem_nil
  | cons n ns =>
    rw [hms] at hm
    rcases List.mem_cons.mp hm with rfl | hm
    · exact Nat.pos_of_ne_zero (h m (by rw [Tag.Pattern.find?, hms]; rfl))
    · exact pos_of_later hms m hm

/-- How often the pass polls the token does not depend on the setting. -/
theorem run_majorSectionHeading_eq (config : RenderConfig) (suppress : Bool) (polls : Polls)
    (t : StyledText) : majorSectionHeading.run (config.suppressing suppress) polls t =
      if polls.Calm 0 (majorSectionHeading.pollCount t) then
        some (majorSectionHeading.apply (config.suppressing suppress) t) else none :=
  Stage.run_eq _ polls t majorSectionHeading

/-- **The setting leaves out the heading that the query finds, and nothing else.** If the leftmost
major heading opens the text, the query gives its content, and the pass without the setting gives
that content in upper case, bold and centered, a line break, and then what the pass with the setting
gives. If it does not, or there is none, the two passes give the same and the query gives nothing.
The passes run to their end unless they are cancelled, and that both are or none. -/
theorem run_majorSectionHeading (config : RenderConfig) (t : StyledText) :
    let pass := fun suppress polls => majorSectionHeading.run (config.suppressing suppress) polls t
    let query := leadingHeading t
    (∀ suppress, (pass suppress (.always false)).isSome) ∧
    (∀ m, majorSectionHeading.pattern.find? t.text = some m → m.start = 0 →
      (∃ s, m.group? 0 = some s ∧ query = t.extract s) ∧
      ∀ polls, pass false polls = (pass true polls).map fun out =>
        (query.mapText Text.upper).addStyles [.bold, .alignCenter] ++ .plain ['\n'] ++ out) ∧
    ((∀ m, majorSectionHeading.pattern.find? t.text = some m → m.start ≠ 0) →
      query = ∅ ∧ ∀ polls, pass false polls = pass true polls) := by
  intro pass query
  refine ⟨fun suppress => ?_, fun m hfind hstart => ⟨?_, fun polls => ?_⟩, fun h => ⟨?_, ?_⟩⟩
  · simp only [pass, Stage.run_always, Option.isSome_some]
  · obtain ⟨s, hs, hquery, -⟩ := leadingHeading_of_find? hfind hstart
    exact ⟨s, hs, hquery⟩
  · have happly := apply_majorSectionHeading_of_start config hfind hstart
    simp only [pass, run_majorSectionHeading_eq, happly]
    split
    · rfl
    · rfl
  · exact leadingHeading_of_not_start h
  · intro polls
    simp only [pass, run_majorSectionHeading_eq, apply_majorSectionHeading_of_not_start config h]

/-- A styled heading that opens the text, and another one after it. -/
theorem run_majorSectionHeading_of_two :
    let t : StyledText := .plain "<para style=\"ms\">".toList ++ .styled ['a'] (.ofList [.italic]) ++
      .plain "</para><para style=\"ms\">b</para>".toList
    majorSectionHeading.run {} (.always false) t =
      (majorSectionHeading.run { suppressLeadingHeading := true } (.always false) t).map fun out =>
        .styled ['A'] (.ofList [.bold, .italic, .alignCenter]) ++ .plain ['\n'] ++ out := by
  intro t
  obtain ⟨-, hopens, -⟩ := run_majorSectionHeading {} t
  have hfind : majorSectionHeading.pattern.find? t.text =
      some ⟨0, ⟨25, [⟨17, 18⟩]⟩⟩ := by decide +kernel
  have hline : (((leadingHeading t).mapText Text.upper).addStyles [.bold, .alignCenter] :
      StyledText) = .styled ['A'] (.ofList [.bold, .italic, .alignCenter]) := by decide +kernel
  have h := (hopens _ hfind rfl).2 (.always false)
  rw [hline] at h
  exact h

end Passage
