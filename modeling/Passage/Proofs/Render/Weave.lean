import Passage.Proofs.Styled.Chars
import Passage.Proofs.Tag.Matches
import Passage.Render.Replace

/-! The result of a pass, in styled characters. If the token is raised at none of the polls
before the matches, the pass gives the text in which every match is replaced by the rule's
answer and all else stands as it is (`weave`); if it is raised at one of them, the pass
gives nothing. The two cases are one equation (`replaceWith_eq`, `replace_eq`). -/

namespace Passage

variable {σ : Type}

def StyledText.occurrence (t : StyledText) (m : Tag.Match) : Occurrence :=
  ⟨m, t.extract m.span⟩

/-- A captured part of a match is a part of the text. -/
theorem StyledText.chars_group {t : StyledText} {p : Tag.Pattern} {m : Tag.Match}
    (h : m ∈ p.matches t.text) (i : Nat) :
    ((t.occurrence m).group i).chars =
      ((m.group? i).map fun s => (t.chars.drop s.start).take (s.stop - s.start)).getD [] := by
  rw [Occurrence.group, Tag.Match.group?, occurrence]
  cases hg : m.extent.groups[i]? with
  | none => rfl
  | some g =>
    obtain ⟨-, hm⟩ := Tag.Pattern.match?_of_mem_matches h
    obtain ⟨-, -, hle⟩ := (Tag.Pattern.match?_within hm).groups g (List.mem_of_getElem? hg)
    have hs : m.span.start + g.stop ≤ m.span.stop := by
      simp only [Tag.Match.span]
      omega
    rw [chars_extract_extract _ _ _ hs, chars_extract]
    simp only [Option.map_some, Option.getD_some, Tag.Match.span, Tag.shift, Nat.add_comm m.start]

theorem StyledText.text_group {t : StyledText} {p : Tag.Pattern} {m : Tag.Match}
    (h : m ∈ p.matches t.text) (i : Nat) :
    ((t.occurrence m).group i).text = ((m.group? i).map (Text.slice t.text)).getD [] := by
  rw [text_eq_map_chars, chars_group h]
  cases m.group? i with
  | none => rfl
  | some s => simp [Text.slice, text_eq_map_chars]

/-- What a rule makes of matches, one after the other from state `s`, and its state then. -/
def answers (t : StyledText) (rule : σ → Occurrence → StyledText × σ) (s : σ) :
    List Tag.Match → List (Tag.Match × StyledText) × σ
  | [] => ([], s)
  | m :: ms =>
    let (text, s) := rule s (t.occurrence m)
    let (more, s) := answers t rule s ms
    ((m, text) :: more, s)

/-- The characters after the first `offset`, with texts in the place of matches. -/
def weave (cs : List StyledChar) (offset : Nat) : List (Tag.Match × StyledText) → List StyledChar
  | [] => cs.drop offset
  | (m, u) :: rest =>
    (cs.drop offset).take (m.start - offset) ++ u.chars ++ weave cs m.span.stop rest

/-- The token is raised at none of `n` polls, of which the first has number `i`. -/
def Polls.Calm (polls : Polls) (i n : Nat) : Prop :=
  ∀ j < n, polls (i + j) = false

instance (polls : Polls) (i n : Nat) : Decidable (polls.Calm i n) :=
  inferInstanceAs (Decidable (∀ j < n, _))

theorem Polls.calm_always (i n : Nat) : (Polls.always false).Calm i n :=
  fun _ _ => rfl

theorem Polls.calm_succ {polls : Polls} {i n : Nat} :
    polls.Calm i (n + 1) ↔ polls i = false ∧ polls.Calm (i + 1) n := by
  constructor
  · intro h
    refine ⟨h 0 (by omega), fun j hj => ?_⟩
    have := h (j + 1) (by omega)
    rwa [Nat.add_right_comm, Nat.add_assoc]
  · rintro ⟨h, ht⟩ j hj
    cases j with
    | zero => exact h
    | succ j =>
      have := ht j (by omega)
      rwa [Nat.add_right_comm, Nat.add_assoc] at this

/-- Of the `n` polls from number `i` on, `k` come before the first that finds the token raised. -/
structure Polls.StopsAfter (polls : Polls) (i n k : Nat) : Prop where
  le : k ≤ n
  calm : polls.Calm i k
  raised : k < n → polls (i + k) = true

namespace Polls

variable {polls : Polls} {i n k : Nat}

theorem StopsAfter.zero (h : polls i = true) : polls.StopsAfter i n 0 :=
  ⟨Nat.zero_le _, fun _ hj => absurd hj (Nat.not_lt_zero _), fun _ => h⟩

theorem StopsAfter.succ (hi : polls i = false) (h : polls.StopsAfter (i + 1) n k) :
    polls.StopsAfter i (n + 1) (k + 1) where
  le := Nat.succ_le_succ h.le
  calm := calm_succ.mpr ⟨hi, h.calm⟩
  raised hk := by
    have := h.raised (Nat.lt_of_succ_lt_succ hk)
    rwa [Nat.add_right_comm, Nat.add_assoc] at this

theorem exists_stopsAfter (polls : Polls) (i n : Nat) : ∃ k, polls.StopsAfter i n k := by
  induction n generalizing i with
  | zero => exact ⟨0, Nat.le_refl _, fun _ hj => absurd hj (Nat.not_lt_zero _),
      fun hk => absurd hk (Nat.not_lt_zero _)⟩
  | succ n ih =>
    cases hi : polls i with
    | true => exact ⟨0, .zero hi⟩
    | false =>
      obtain ⟨k, hk⟩ := ih (i + 1)
      exact ⟨k + 1, hk.succ hi⟩

/-- Either the first poll finds the token raised, or it is one of those before. -/
theorem StopsAfter.cases (h : polls.StopsAfter i (n + 1) k) :
    k = 0 ∧ polls i = true ∨
      ∃ l, k = l + 1 ∧ polls i = false ∧ polls.StopsAfter (i + 1) n l := by
  cases k with
  | zero => exact .inl ⟨rfl, h.raised (Nat.succ_pos n)⟩
  | succ l =>
    obtain ⟨hi, hc⟩ := calm_succ.mp h.calm
    refine .inr ⟨l, rfl, hi, Nat.le_of_succ_le_succ h.le, hc, fun hl => ?_⟩
    have := h.raised (Nat.succ_lt_succ hl)
    rwa [Nat.add_right_comm, Nat.add_assoc]

theorem StopsAfter.calm_iff (h : polls.StopsAfter i n k) : polls.Calm i n ↔ k = n := by
  constructor
  · intro hc
    refine Nat.le_antisymm h.le (Nat.le_of_not_lt fun hk => ?_)
    have hraised := h.raised hk
    rw [hc k hk] at hraised
    cases hraised
  · rintro rfl
    exact h.calm

end Polls

theorem length_segmentsFrom (offset : Nat) (rs : List Run) (ms : List Tag.Match) :
    (segmentsFrom offset rs ms).1.length = ms.length := by
  induction ms generalizing offset rs with
  | nil => rfl
  | cons m ms ih => simp [segmentsFrom, ih]

theorem replaceFrom_none {polls : Polls} {rule : σ → Occurrence → StyledText × σ} {i : Nat}
    {s : σ} {last : List Run} {segs : List Segment} (h : ¬ polls.Calm i segs.length) :
    (replaceFrom polls rule i s last segs).output = none := by
  induction segs generalizing i s with
  | nil => exact absurd (fun j hj => absurd hj (Nat.not_lt_zero j)) h
  | cons seg rest ih =>
    rw [List.length_cons, Polls.calm_succ] at h
    cases hp : polls i with
    | true => simp [replaceFrom, hp]
    | false =>
      have := ih (s := (rule s seg.occurrence).2) fun hc => h ⟨hp, hc⟩
      simp [replaceFrom, hp, this]

/-- The first segment is the gap before the first match and what that match covers. -/
theorem segmentsFrom_cons (t : StyledText) {offset : Nat} {rs : List Run} {m : Tag.Match}
    (hr : Run.charsOf rs = t.chars.drop offset) (hle : offset ≤ m.start) (ms : List Tag.Match) :
    ∃ gap rest, segmentsFrom offset rs (m :: ms) =
        (⟨gap, t.occurrence m⟩ :: (segmentsFrom m.span.stop rest ms).1,
          (segmentsFrom m.span.stop rest ms).2) ∧
      Run.charsOf gap = (t.chars.drop offset).take (m.start - offset) ∧
      Run.charsOf rest = t.chars.drop m.span.stop := by
  obtain ⟨hgap, hrest⟩ := Run.charsOf_cut (m.start - offset) rs
  obtain ⟨htag, hlast⟩ := Run.charsOf_cut m.extent.length (Run.cut (m.start - offset) rs).2
  rw [hr, List.drop_drop, Nat.add_sub_of_le hle] at hrest
  rw [hrest] at htag hlast
  rw [List.drop_drop] at hlast
  rw [hr] at hgap
  have ho : (⟨m, StyledText.ofRuns (Run.cut m.extent.length
      (Run.cut (m.start - offset) rs).2).1⟩ : Occurrence) = t.occurrence m := by
    rw [StyledText.occurrence, Occurrence.mk.injEq, StyledText.eq_iff_chars]
    simp [htag, Tag.Match.span]
  refine ⟨_, _, ?_, hgap, hlast⟩
  simp only [segmentsFrom, ho]

/-- Without a raise the segments between and at the matches are put together again. -/
theorem replaceFrom_segmentsFrom (t : StyledText) (rule : σ → Occurrence → StyledText × σ)
    {polls : Polls} {i offset : Nat} {s : σ} {rs : List Run} {ms : List Tag.Match}
    (hr : Run.charsOf rs = t.chars.drop offset) (hm : Tag.Following offset ms)
    (hp : polls.Calm i ms.length) :
    ∃ out, replaceFrom polls rule i s (segmentsFrom offset rs ms).2 (segmentsFrom offset rs ms).1 =
        ⟨(answers t rule s ms).2, some out⟩ ∧
      Run.charsOf out = weave t.chars offset (answers t rule s ms).1 := by
  induction ms generalizing i offset s rs with
  | nil => exact ⟨rs, rfl, hr⟩
  | cons m ms ih =>
    obtain ⟨hle, hms⟩ := hm
    obtain ⟨hi, hp⟩ := Polls.calm_succ.mp hp
    obtain ⟨gap, rest, hseg, hgap, hrest⟩ := segmentsFrom_cons t hr hle ms
    obtain ⟨out, hout, hchars⟩ := ih (s := (rule s (t.occurrence m)).2) hrest hms hp
    refine ⟨gap ++ (rule s (t.occurrence m)).1.runs ++ out, ?_, ?_⟩
    · rw [hseg]
      simp [replaceFrom, hi, answers, hout]
    · simp only [Run.charsOf_append, hgap, hchars, answers, weave]
      rfl

namespace StyledText

/-- A text with the matches of a pattern replaced by a rule from state `s`. -/
def rewritten (t : StyledText) (p : Tag.Pattern) (rule : σ → Occurrence → StyledText × σ)
    (s : σ) : StyledText :=
  ofChars (weave t.chars 0 (answers t rule s (p.matches t.text)).1)

/-- A pass is given up if the token is raised before one of the matches, and else complete. -/
theorem replaceWith_eq (t : StyledText) (p : Tag.Pattern) (polls : Polls)
    (rule : σ → Occurrence → StyledText × σ) (s : σ) :
    (t.replaceWith p polls rule s).2 =
      if polls.Calm 0 (p.matches t.text).length then some (t.rewritten p rule s) else none := by
  split
  · rename_i h
    obtain ⟨out, hout, hchars⟩ :=
      replaceFrom_segmentsFrom t rule (s := s) rfl (p.following_matches t.text) h
    simp only [replaceWith, hout, Option.map_some, rewritten, Option.some.injEq]
    rw [eq_ofChars_iff, chars_ofRuns, hchars]
  · rename_i h
    rw [← length_segmentsFrom 0 t.runs] at h
    simp only [replaceWith, replaceFrom_none h, Option.map_none]

/-- The state of the rule after a pass that is complete. -/
theorem replaceWith_state (t : StyledText) {p : Tag.Pattern} {polls : Polls}
    (rule : σ → Occurrence → StyledText × σ) (s : σ)
    (h : polls.Calm 0 (p.matches t.text).length) :
    (t.replaceWith p polls rule s).1 = (answers t rule s (p.matches t.text)).2 := by
  obtain ⟨out, hout, -⟩ :=
    replaceFrom_segmentsFrom t rule (s := s) rfl (p.following_matches t.text) h
  simp only [replaceWith, hout]

theorem answers_stateless (t : StyledText) (rule : Occurrence → StyledText)
    (ms : List Tag.Match) :
    (answers t (fun (_ : Unit) o => (rule o, ())) () ms).1 =
      ms.map fun m => (m, rule (t.occurrence m)) := by
  induction ms with
  | nil => rfl
  | cons m ms ih => simp [answers, ih]

/-- A text with the matches of a pattern replaced by a rule without state. -/
def replaced (t : StyledText) (p : Tag.Pattern) (rule : Occurrence → StyledText) : StyledText :=
  ofChars (weave t.chars 0 ((p.matches t.text).map fun m => (m, rule (t.occurrence m))))

theorem replace_eq (t : StyledText) (p : Tag.Pattern) (polls : Polls)
    (rule : Occurrence → StyledText) :
    t.replace p polls rule =
      if polls.Calm 0 (p.matches t.text).length then some (t.replaced p rule) else none := by
  rw [replace, replaceWith_eq, rewritten, answers_stateless, replaced]

end StyledText

end Passage
