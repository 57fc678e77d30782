import Passage.Proofs.Render.Complete

/-! Cancellation is all or nothing. The polls of a render stand in a row: one before each stage
and one before each match in it. The first poll that finds the token raised falls to some
stage of the list; the render gives what the stages before that one make of the text, names
these as completed and that one as cancelled, whatever later polls would have answered. -/

namespace Passage

/-- How often a list of stages polls a token that is never raised. -/
def pollsOf (config : RenderConfig) (t : StyledText) : List Stage → Nat
  | [] => 0
  | s :: rest => 1 + s.pollCount t + pollsOf config (s.apply config t) rest

/-- A render under polls whose first `n` answers are spent has completed the first `k` stages:
the token was not raised while these ran, and was raised before or in the next one. -/
structure StoppedAfter (config : RenderConfig) (stages : List Stage) (polls : Polls) (n : Nat)
    (t : StyledText) (k : Nat) : Prop where
  le_length : k ≤ stages.length
  calm : polls.Calm n (pollsOf config t (stages.take k))
  raised : k < stages.length →
    ¬ polls.Calm n (pollsOf config t (stages.take (k + 1)))

theorem Polls.calm_add {polls : Polls} {i m n : Nat} :
    polls.Calm i (m + n) ↔ polls.Calm i m ∧ polls.Calm (i + m) n := by
  constructor
  · intro h
    refine ⟨fun j hj => h j (by omega), fun j hj => ?_⟩
    have := h (m + j) (by omega)
    rwa [← Nat.add_assoc] at this
  · rintro ⟨h1, h2⟩ j hj
    by_cases hlt : j < m
    · exact h1 j hlt
    · have := h2 (j - m) (by omega)
      rwa [Nat.add_assoc, Nat.add_sub_of_le (by omega)] at this

theorem Polls.calm_after {polls : Polls} {i n : Nat} :
    (polls.after i).Calm 0 n ↔ polls.Calm i n := by
  simp only [Polls.Calm, Polls.after, Nat.zero_add]

theorem Polls.calm_one {polls : Polls} {i : Nat} : polls.Calm i 1 ↔ polls i = false := by
  rw [Polls.calm_succ]
  exact ⟨And.left, fun h => ⟨h, fun j hj => absurd hj (Nat.not_lt_zero j)⟩⟩

theorem pollsOf_append (config : RenderConfig) (t : StyledText) (front back : List Stage) :
    pollsOf config t (front ++ back) =
      pollsOf config t front + pollsOf config (afterStages config t front) back := by
  induction front generalizing t with
  | nil => exact (Nat.zero_add _).symm
  | cons s front ih =>
    simp only [List.cons_append, pollsOf, ih, afterStages]
    omega

theorem pollsOf_take_succ {config : RenderConfig} {t : StyledText} {stages : List Stage} {k : Nat}
    (h : k < stages.length) :
    pollsOf config t (stages.take (k + 1)) =
      pollsOf config t (stages.take k) + 1 +
        stages[k].pollCount (afterStages config t (stages.take k)) := by
  rw [List.take_succ_eq_append_getElem h, pollsOf_append]
  simp only [pollsOf]
  omega

/-- If the polls of a stage find nothing, the later stages decide. -/
theorem StoppedAfter.cons {config : RenderConfig} {s : Stage} {stages : List Stage}
    {polls : Polls} {n k : Nat} {t : StyledText} (hs : polls.Calm n (1 + s.pollCount t))
    (h : StoppedAfter config stages polls (n + (1 + s.pollCount t)) (s.apply config t) k) :
    StoppedAfter config (s :: stages) polls n t (k + 1) where
  le_length := Nat.succ_le_succ h.le_length
  calm := Polls.calm_add.mpr ⟨hs, h.calm⟩
  raised hk := by
    intro hc
    exact h.raised (Nat.lt_of_succ_lt_succ hk) (Polls.calm_add.mp hc).2

theorem StoppedAfter.zero {config : RenderConfig} {s : Stage} {stages : List Stage}
    {polls : Polls} {n : Nat} {t : StyledText} (hs : ¬ polls.Calm n (1 + s.pollCount t)) :
    StoppedAfter config (s :: stages) polls n t 0 where
  le_length := Nat.zero_le _
  calm j hj := absurd hj (Nat.not_lt_zero j)
  raised _ := by
    intro hc
    exact hs (Polls.calm_add.mp hc).1

/-- The run lemma: from any poll on, a render stops after the stages that the polls let pass. -/
theorem renderWith_stoppedAfter (config : RenderConfig) (stages : List Stage) (polls : Polls)
    (n : Nat) (t : StyledText) :
    ∃ k, StoppedAfter config stages polls n t k ∧
      renderWith config none polls n stages t =
        ⟨afterStages config t (stages.take k), stages.take k, stages[k]?⟩ := by
  induction stages generalizing n t with
  | nil =>
    exact ⟨0, ⟨Nat.le_refl _, fun j hj => absurd hj (Nat.not_lt_zero j),
      fun h => absurd h (Nat.not_lt_zero 0)⟩, rfl⟩
  | cons s stages ih =>
    by_cases hs : polls.Calm n (1 + s.pollCount t)
    · obtain ⟨h1, h2⟩ := Polls.calm_add.mp hs
      have hrun : s.run config (polls.after (n + 1)) t = some (s.apply config t) := by
        rw [Stage.run_eq, if_pos (Polls.calm_after.mpr h2)]
      obtain ⟨k, hk, hr⟩ := ih (n + (1 + s.pollCount t)) (s.apply config t)
      refine ⟨k + 1, hk.cons hs, ?_⟩
      rw [← Nat.add_assoc] at hr
      simp [renderWith, Polls.calm_one.mp h1, hrun, hr, afterStages]
    · refine ⟨0, .zero hs, ?_⟩
      -- the poll before the stage, or else the ones before its matches
      cases hn : polls n with
      | true => simp [renderWith, hn, afterStages]
      | false =>
        have hrun : s.run config (polls.after (n + 1)) t = none := by
          rw [Stage.run_eq, if_neg]
          intro hc
          exact hs (Polls.calm_add.mpr ⟨Polls.calm_one.mpr hn, Polls.calm_after.mp hc⟩)
        simp [renderWith, hn, hrun, afterStages]

/-- A render under a token that is never raised is what all of its stages make of the text. -/
theorem render_always (config : RenderConfig) (stages : List Stage) (t : StyledText) :
    render config stages (.always false) t = ⟨afterStages config t stages, stages, none⟩ := by
  obtain ⟨k, hk, hr⟩ := renderWith_stoppedAfter config stages (.always false) 0 t
  have hlen : stages.length ≤ k :=
    Nat.le_of_not_lt fun hlt => hk.raised hlt (Polls.calm_always 0 _)
  rw [render, hr, List.take_of_length_le hlen, List.getElem?_eq_none hlen]

/-- The first poll of a raised token among `n` polls. -/
theorem Polls.exists_first_raised {polls : Polls} {n : Nat} (h : ¬ polls.Calm 0 n) :
    ∃ i < n, polls i = true ∧ ∀ j < i, polls j = false := by
  obtain ⟨k, hk⟩ := polls.exists_stopsAfter 0 n
  have hlt : k < n := Nat.lt_of_le_of_ne hk.le fun he => h (hk.calm_iff.mpr he)
  have hraised := hk.raised hlt
  have hcalm := hk.calm
  simp only [Polls.Calm, Nat.zero_add] at hraised hcalm
  exact ⟨k, hlt, hraised, hcalm⟩

/-- **A render is what some of its first stages make of the text.** The number `k` of these is
fixed by the first poll that finds the token raised: it is one of the polls before or in stage
`k`, counted as they are when nothing is raised, and there is none if `k` is the whole list. The
verse stage, whose labels for absent verses come after its scan, gives output only if no poll of
the scan was raised. -/
theorem render_all_or_nothing (config : RenderConfig) (stages : List Stage) (polls : Polls)
    (t : StyledText) :
    (∃ k ≤ stages.length,
      let report := render config stages polls t
      let start := pollsOf config t (stages.take k)
      report.completed = stages.take k ∧
      (stages.take k).foldlM (fun t s => s.run config (.always false) t) t = some report.text ∧
      report.cancelled = stages[k]? ∧
      (∀ i < start, polls i = false) ∧
      (k < stages.length →
        ∃ i, polls i = true ∧ (∀ j < i, polls j = false) ∧
          start ≤ i ∧ i < start + 1 + (stages[k]?.map (·.pollCount report.text)).getD 0)) ∧
    ∀ (scan : Polls) (u out : StyledText), Stage.verse.run config scan u = some out →
      (∀ i < Stage.verse.pollCount u, scan i = false) ∧
        Stage.verse.run config (.always false) u = some out := by
  constructor
  · obtain ⟨k, hk, hr⟩ := renderWith_stoppedAfter config stages polls 0 t
    have hcalm : ∀ i < pollsOf config t (stages.take k), polls i = false := by
      simpa [Polls.Calm] using hk.calm
    rw [render, hr]
    refine ⟨k, hk.le_length, rfl, foldlM_run_always config t _, rfl, hcalm, fun hlt => ?_⟩
    obtain ⟨i, hi, hraised, hfirst⟩ := Polls.exists_first_raised (hk.raised hlt)
    refine ⟨i, hraised, hfirst, ?_, ?_⟩
    · refine Nat.le_of_not_lt fun hlt => ?_
      rw [hcalm i hlt] at hraised
      cases hraised
    · rw [pollsOf_take_succ hlt] at hi
      rw [List.getElem?_eq_getElem hlt]
      exact hi
  · intro scan u out h
    rw [Stage.run_eq] at h
    split at h
    · rename_i hc
      cases h
      exact ⟨by simpa [Polls.Calm] using hc, Stage.run_always config u _⟩
    · cases h

end Passage
