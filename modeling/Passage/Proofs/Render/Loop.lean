import Passage.Proofs.Render.Splice
import Passage.Proofs.Styled.Lookup
import Passage.Render.Rewrite

/-! The scan-and-replace loop is faithful. It calls the rule for the matches before the first poll
that finds the token raised. If there is such a poll it gives nothing else; and if there is none it
gives the text with each match's span replaced by the rule's answer (`rewrite_faithful`). -/

namespace Passage

/-! ## The loop -/

variable {σ : Type}

/-- A rule as it is called for the matches in a text. -/
def StyledText.called (t : StyledText) (rule : σ → Occurrence → StyledText × σ) :
    σ → Tag.Match → StyledText × σ :=
  fun s m => rule s (t.occurrence m)

theorem Text.byteSpan_eq (cs : List Char) {a b : Nat} (h : a ≤ b) :
    byteSpan cs ⟨a, b⟩ = ⟨byteLength (cs.take a), byteLength (cs.take b)⟩ := by
  have htake : cs.take b = cs.take a ++ (cs.drop a).take (b - a) := by
    rw [← List.take_add, Nat.add_sub_of_le h]
  rw [byteSpan, htake, byteLength_append]

theorem StyledText.ranged_slice?_take (t : StyledText) {a b : Nat} (hab : a ≤ b)
    (hb : b ≤ t.text.length) :
    t.ranged.slice? ⟨Text.byteLength (t.text.take a), Text.byteLength (t.text.take b)⟩ =
      some (t.extract ⟨a, b⟩).ranged := by
  have htake : t.text.take b = t.text.take a ++ (t.text.drop a).take (b - a) := by
    rw [← List.take_add, Nat.add_sub_of_le hab]
  have htext : t.text = t.text.take a ++ ((t.text.drop a).take (b - a) ++ t.text.drop b) := by
    rw [← List.append_assoc, ← htake, List.take_append_drop]
  have hpart := slice?_part htext
  have hmid : ((t.text.drop a).take (b - a)).length = b - a := by
    rw [List.length_take, List.length_drop]
    omega
  rw [← Text.byteLength_append, ← htake, List.length_take_of_le (Nat.le_trans hab hb), hmid,
    Nat.add_sub_of_le hab] at hpart
  rw [RangedText.ranged_slice?, hpart, Option.map_some]

variable {polls : Polls} {i offset k : Nat} {s : σ} {ms : List Tag.Match}

/-- One round of the loop: the gap before the match and the rule's answer are put after `o`. -/
theorem rewriteFrom?_cons (t : StyledText) (rule : σ → Occurrence → StyledText × σ)
    {m : Tag.Match} (o : StyledText) (hi : polls i = false) (hle : offset ≤ m.start)
    (hstop : m.span.stop ≤ t.text.length) :
    t.ranged.rewriteFrom? polls (t.called rule) i s (Text.byteLength (t.text.take offset)) o.ranged
        (m :: ms) =
      t.ranged.rewriteFrom? polls (t.called rule) (i + 1) (rule s (t.occurrence m)).2
        (Text.byteLength (t.text.take m.span.stop))
        (o ++ t.extract ⟨offset, m.start⟩ ++ (rule s (t.occurrence m)).1).ranged ms := by
  have hspan : m.start ≤ m.span.stop := Nat.le_add_right _ _
  have hgap := t.ranged_slice?_take hle (Nat.le_trans hspan hstop)
  have hplace : Text.byteSpan t.ranged.text m.span =
      ⟨Text.byteLength (t.text.take m.start), Text.byteLength (t.text.take m.span.stop)⟩ :=
    Text.byteSpan_eq t.text hspan
  rw [RangedText.rewriteFrom?, hi, hplace]
  simp [hgap, RangedText.ranged_append?, StyledText.called]

/-- From any match on, with `o` put together so far. -/
theorem rewriteFrom?_ranged (t : StyledText) (rule : σ → Occurrence → StyledText × σ)
    (o : StyledText) (hm : Tag.Following offset ms) (hw : ∀ m ∈ ms, m.span.stop ≤ t.text.length)
    (ho : offset ≤ t.text.length) (hk : polls.StopsAfter i ms.length k) :
    t.ranged.rewriteFrom? polls (t.called rule) i s (Text.byteLength (t.text.take offset)) o.ranged
        ms =
      some ((answers t rule s (ms.take k)).2,
        if k = ms.length then
          .completed (o ++ .ofChars (weave t.chars offset (answers t rule s ms).1)).ranged
        else .cancelled) := by
  induction ms generalizing i offset k s o with
  | nil =>
    obtain rfl : k = 0 := Nat.le_zero.mp hk.le
    have hgap := t.ranged_slice?_take ho (Nat.le_refl _)
    rw [List.take_length] at hgap
    have hlast : t.extract ⟨offset, t.text.length⟩ = .ofChars (t.chars.drop offset) := by
      rw [StyledText.eq_ofChars_iff, StyledText.chars_extract, StyledText.length_text,
        ← List.length_drop, List.take_length]
    simp [RangedText.rewriteFrom?, hgap, RangedText.ranged_append?, hlast, answers, weave]
  | cons m ms ih =>
    obtain ⟨hle, hms⟩ := hm
    obtain ⟨hstop, hw⟩ := List.forall_mem_cons.mp hw
    obtain ⟨rfl, hi⟩ | ⟨l, rfl, hi, hl⟩ := hk.cases
    · simp [RangedText.rewriteFrom?, hi, answers]
    · have htext : ∀ cs : List StyledChar,
          o ++ t.extract ⟨offset, m.start⟩ ++ (rule s (t.occurrence m)).1 ++ .ofChars cs =
            o ++ .ofChars ((t.chars.drop offset).take (m.start - offset) ++
              (rule s (t.occurrence m)).1.chars ++ cs) := by
        intro cs
        simp [StyledText.eq_iff_chars]
      rw [rewriteFrom?_cons t rule o hi hle hstop, ih _ hms hw hstop hl, htext]
      simp [answers, weave]

/-- The pass that the stages run leaves its rule in the same state. -/
theorem replaceFrom_state (t : StyledText) (rule : σ → Occurrence → StyledText × σ)
    {rs last : List Run} (hr : Run.charsOf rs = t.chars.drop offset)
    (hm : Tag.Following offset ms) (hk : polls.StopsAfter i ms.length k) :
    (replaceFrom polls rule i s last (segmentsFrom offset rs ms).1).state =
      (answers t rule s (ms.take k)).2 := by
  induction ms generalizing i offset k s rs with
  | nil =>
    obtain rfl : k = 0 := Nat.le_zero.mp hk.le
    rfl
  | cons m ms ih =>
    obtain ⟨hle, hms⟩ := hm
    obtain ⟨gap, rest, hseg, -, hrest⟩ := segmentsFrom_cons t hr hle ms
    obtain ⟨rfl, hi⟩ | ⟨l, rfl, hi, hl⟩ := hk.cases
    · simp [hseg, replaceFrom, hi, answers]
    · have hstate := @ih (i + 1) m.span.stop l (rule s (t.occurrence m)).2 rest hrest hms hl
      simp [hseg, replaceFrom, hi, answers, hstate]

/-! ## The calls of the rule -/

/-- A rule that notes the matches it is called for. -/
def recording (rule : σ → Occurrence → StyledText × σ) :
    List Tag.Match × σ → Occurrence → StyledText × (List Tag.Match × σ) :=
  fun (seen, s) o =>
    let (u, s) := rule s o
    (u, (seen ++ [o.found], s))

theorem answers_recording (t : StyledText) (rule : σ → Occurrence → StyledText × σ)
    (seen : List Tag.Match) (s : σ) (ms : List Tag.Match) :
    answers t (recording rule) (seen, s) ms =
      ((answers t rule s ms).1, (seen ++ ms, (answers t rule s ms).2)) := by
  induction ms generalizing seen s with
  | nil => simp [answers]
  | cons m ms ih =>
    have hfound : (t.occurrence m).found = m := rfl
    simp only [answers, recording, hfound]
    rw [ih, List.append_assoc]
    rfl

theorem map_fst_answers (t : StyledText) (rule : σ → Occurrence → StyledText × σ) (s : σ)
    (ms : List Tag.Match) : (answers t rule s ms).1.map Prod.fst = ms := by
  induction ms generalizing s with
  | nil => rfl
  | cons m ms ih => simp [answers, ih]

theorem rewrite?_of_stopsAfter (t : StyledText) (p : Tag.Pattern)
    (rule : σ → Occurrence → StyledText × σ) (s : σ)
    (hk : polls.StopsAfter 0 (p.matches t.text).length k) :
    t.ranged.rewrite? p polls (t.called rule) s =
      some ((answers t rule s ((p.matches t.text).take k)).2,
        if k = (p.matches t.text).length then
          .completed (StyledText.ofChars
            (splice t.chars (answers t rule s (p.matches t.text)).1)).ranged
        else .cancelled) := by
  have h := rewriteFrom?_ranged t rule ∅ (s := s) (p.following_matches t.text)
    (fun m hm => Tag.Pattern.stop_le_of_mem_matches hm) (Nat.zero_le _) hk
  rw [StyledText.empty_append, weave_eq_splice (map_fst_answers t rule s _)] at h
  exact h

theorem replaceWith_of_stopsAfter (t : StyledText) (p : Tag.Pattern)
    (rule : σ → Occurrence → StyledText × σ) (s : σ)
    (hk : polls.StopsAfter 0 (p.matches t.text).length k) :
    t.replaceWith p polls rule s =
      ((answers t rule s ((p.matches t.text).take k)).2,
        if k = (p.matches t.text).length then
          some (.ofChars (splice t.chars (answers t rule s (p.matches t.text)).1))
        else none) := by
  refine Prod.ext ?_ ?_
  · exact replaceFrom_state t rule rfl (p.following_matches t.text) hk
  · simp only [t.replaceWith_eq, hk.calm_iff, StyledText.rewritten]
    rw [weave_eq_splice (map_fst_answers t rule s _)]

/-- **A pass rewrites faithfully.** The rule is called for the first `k` matches, in order and once
for each, where `k` is the number of matches before the first one whose poll finds the token
raised. If there is such a match the pass is cancelled, and else the text is completed with each
match's span replaced by the rule's answer. The loop over held text and the pass that the stages
run do this alike. A text without a match stays as it is, and what is raised while the last match
is replaced cancels nothing. -/
theorem rewrite_faithful (t : StyledText) (p : Tag.Pattern) (polls : Polls)
    (rule : σ → Occurrence → StyledText × σ) (s : σ) :
    let ms := p.matches t.text
    let out := StyledText.ofChars (splice t.chars (answers t rule s ms).1)
    (∃ k ≤ ms.length, (∀ i < k, polls i = false) ∧ (k < ms.length → polls k = true) ∧
      t.ranged.rewrite? p polls (t.called rule) s =
        some ((answers t rule s (ms.take k)).2,
          if k = ms.length then .completed out.ranged else .cancelled) ∧
      t.replaceWith p polls rule s =
        ((answers t rule s (ms.take k)).2, if k = ms.length then some out else none) ∧
      (t.ranged.rewrite? p polls (t.called (recording rule)) ([], s)).map (fun r => r.1.1) =
        some (ms.take k)) ∧
    (ms = [] → t.ranged.rewrite? p polls (t.called rule) s = some (s, .completed t.ranged)) ∧
    ∀ n, ms.length ≤ n + 1 →
      t.ranged.rewrite? p (.raisedAfter n) (t.called rule) s =
        some ((answers t rule s ms).2, .completed out.ranged) := by
  intro ms out
  refine ⟨?_, fun hnil => ?_, fun n hn => ?_⟩
  · obtain ⟨k, hk⟩ := polls.exists_stopsAfter 0 ms.length
    have hcalm : ∀ i < k, polls i = false := by simpa [Polls.Calm] using hk.calm
    have hraised : k < ms.length → polls k = true := by simpa using hk.raised
    refine ⟨k, hk.le, hcalm, hraised, rewrite?_of_stopsAfter t p rule s hk,
      replaceWith_of_stopsAfter t p rule s hk, ?_⟩
    rw [rewrite?_of_stopsAfter t p (recording rule) ([], s) hk, answers_recording]
    rfl
  · have hlen : (p.matches t.text).length = 0 := List.length_eq_zero_iff.mpr hnil
    have hk : polls.StopsAfter 0 (p.matches t.text).length 0 :=
      ⟨Nat.zero_le _, fun _ hj => absurd hj (Nat.not_lt_zero _), fun h => absurd h (by omega)⟩
    rw [rewrite?_of_stopsAfter t p rule s hk, hlen, if_pos rfl,
      show p.matches t.text = [] from hnil, List.take_nil, answers, splice_nil,
      StyledText.ofChars_chars]
  · have hk : (Polls.raisedAfter n).StopsAfter 0 ms.length ms.length := by
      refine ⟨Nat.le_refl _, fun j hj => ?_, fun h => absurd h (Nat.lt_irrefl _)⟩
      rw [Polls.raisedAfter, decide_eq_false_iff_not]
      omega
    rw [rewrite?_of_stopsAfter t p rule s hk, if_pos rfl, List.take_length]

end Passage
