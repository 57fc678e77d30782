import Mathlib.Data.List.Induction
import Passage.Proofs.Render.Complete
import Passage.Render.Session
import Passage.Render.Token

/-! Sessions. The token of a session is raised if a step has raised it and none has reset it since;
a render that finds it raised changes nothing, and one that finds it clear runs the stages up to the
one that raises it (`session_history`). The loop that reads and writes the token as it goes, and the
report from which a session takes the token, agree (`renderLoop_ofStages`). -/

namespace Passage

/-- The stages up to the first one of a name, that one included; all of them if there is none. -/
def stagesThrough (stopAfter : Option Stage) (stages : List Stage) : List Stage :=
  match stopAfter with
  | none => stages
  | some s => stages.take (stages.idxOf s + 1)

namespace Renderer

def after (r : Renderer) (s : Session) (steps : List SessionStep) : Session :=
  steps.foldl (fun s step => (r.step s step).session) s

/-- The text that a step renders, if it is a render. -/
def input? (s : Session) : SessionStep → Option StyledText
  | .render t => some t
  | .renderAgain => some s.lastText
  | _ => none

/-- The step raises the token: that is what it is for, or it is a render in which the stage that
raises the token completes. -/
def Raises (r : Renderer) (s : Session) (step : SessionStep) : Prop :=
  step = .raise ∨ ∃ input stage, input? s step = some input ∧ r.stopAfter = some stage ∧
    stage ∈ (r.report s.raised input).completed

end Renderer

/-! ## Renders -/

section
variable (config : RenderConfig) (stopAfter : Option Stage) (stages : List Stage) (t : StyledText)

theorem stagesThrough_cons (s : Stage) :
    stagesThrough stopAfter (s :: stages) =
      if stopAfter = some s then [s] else s :: stagesThrough stopAfter stages := by
  cases stopAfter with
  | none => rfl
  | some c =>
    by_cases hc : c = s
    · subst hc
      simp [stagesThrough]
    · have hne : (s == c) = false := beq_eq_false_iff_ne.mpr (Ne.symm hc)
      have hidx : (s :: stages).idxOf c = stages.idxOf c + 1 := by
        rw [List.idxOf_cons, hne, cond_false]
      rw [if_neg fun h => hc (Option.some.inj h), stagesThrough, stagesThrough]
      simp only [hidx, List.take_succ_cons]

theorem renderWith_raised (asked : Nat) :
    renderWith config stopAfter (.always true) asked stages t = ⟨t, [], stages.head?⟩ := by
  cases stages <;> rfl

theorem renderWith_clear (asked : Nat) :
    renderWith config stopAfter (.always false) asked stages t =
      ⟨afterStages config t (stagesThrough stopAfter stages), stagesThrough stopAfter stages,
        stages[(stagesThrough stopAfter stages).length]?⟩ := by
  induction stages generalizing asked t with
  | nil => cases stopAfter <;> rfl
  | cons s rest ih =>
    have hrun : s.run config ((Polls.always false).after (asked + 1)) t = some (s.apply config t) :=
      s.run_always config t
    have hpoll : Polls.always false asked = false := rfl
    rw [stagesThrough_cons]
    by_cases hs : stopAfter = some s
    · simp [renderWith, hpoll, hrun, hs, renderWith_raised, afterStages, List.head?_eq_getElem?]
    · simp [renderWith, hpoll, hrun, hs, ih, afterStages]

/-- A loop that finds the token raised does nothing. -/
theorem renderLoop_raised (completed : List Stage) (listed : List ListedStage) :
    renderLoop config true t completed listed =
      (⟨t, completed, listed.head?.map ListedStage.stage⟩, true) := by
  cases listed <;> rfl

/-- **The loop gives the report**, and leaves the token raised if it was or if the stage that raises
it has completed. -/
theorem renderLoop_ofStages (raised : Bool) (completed : List Stage) :
    renderLoop config raised t completed (ListedStage.ofStages stopAfter stages) =
      let report := renderWith config stopAfter (.always raised) 0 stages t
      (⟨report.text, completed ++ report.completed, report.cancelled⟩,
        raised || stopAfter.any report.completed.contains) := by
  cases raised with
  | true =>
    have hhead : (ListedStage.ofStages stopAfter stages).head?.map ListedStage.stage =
        stages.head? := by
      cases stages with
      | nil => rfl
      | cons s rest => rw [ListedStage.ofStages]; split <;> rfl
    simp [renderLoop_raised, renderWith_raised, hhead]
  | false =>
    simp only [renderWith_clear]
    induction stages generalizing t completed with
    | nil => cases stopAfter <;> simp [ListedStage.ofStages, renderLoop, stagesThrough, afterStages]
    | cons s rest ih =>
      have hrun := s.run_always config t
      rw [stagesThrough_cons, ListedStage.ofStages]
      by_cases hs : stopAfter = some s
      · simp [renderLoop, hrun, hs, renderLoop_raised, afterStages, List.head?_eq_getElem?,
          Function.comp_def]
      · have hany : ∀ l : List Stage, stopAfter.any (s :: l).contains = stopAfter.any l.contains := by
          intro l
          cases stopAfter with
          | none => rfl
          | some c =>
            have hc : c ≠ s := fun h => hs (congrArg some h)
            simp [hc]
        simp [renderLoop, hrun, hs, ih, afterStages, hany]

end

namespace Renderer

variable (r : Renderer) (s : Session) (step : SessionStep)

/-! ## Steps -/

theorem step_of_input? {input : StyledText} (h : input? s step = some input) :
    (r.step s step).session = r.afterRender s (r.report s.raised input) := by
  cases step with
  | render t | renderAgain => cases h; rfl
  | _ => cases h

theorem step_of_input?_eq_none (h : input? s step = none) :
    (r.step s step).session.lastText = s.lastText := by
  cases step with
  | render t | renderAgain => cases h
  | _ => rfl

theorem raised_afterRender_iff (report : Report) :
    (r.afterRender s report).raised = true ↔
      (∃ stage, r.stopAfter = some stage ∧ stage ∈ report.completed) ∨ s.raised = true := by
  rw [afterRender, Bool.or_eq_true, Option.any_eq_true, or_comm]
  simp

/-- What one step does to the token: it raises it, resets it, or leaves it as it was. -/
theorem raised_step_iff :
    (r.step s step).session.raised = true ↔
      r.Raises s step ∨ s.raised = true ∧ step ≠ .reset := by
  cases step with
  | render t | renderAgain =>
    rw [step_of_input? r s _ rfl, raised_afterRender_iff]
    simp [Raises, input?]
  | _ => simp [Renderer.step, Raises, input?]

/-! ## Runs -/

theorem after_concat (front : List SessionStep) :
    r.after s (front ++ [step]) = (r.step (r.after s front) step).session := by
  simp [after]

/-- The steps of a run are taken one after the other. -/
theorem getElem?_run (front back : List SessionStep) :
    (r.run s (front ++ step :: back))[front.length]? = some (r.step (r.after s front) step) := by
  induction front generalizing s with
  | nil => rfl
  | cons first front ih => exact ih (r.step s first).session

/-- After any steps of a new session the token is raised if one of them raised it and no later one
reset it. -/
theorem raised_after_iff (steps : List SessionStep) :
    (r.after {} steps).raised = true ↔
      ∃ front step back, steps = front ++ step :: back ∧ r.Raises (r.after {} front) step ∧
        .reset ∉ back := by
  induction steps using List.reverseRecOn with
  | nil =>
    constructor
    · intro h
      cases h
    · rintro ⟨front, step, back, hsteps, -⟩
      simp at hsteps
  | append_singleton steps last ih =>
    rw [after_concat, raised_step_iff, ih]
    constructor
    · rintro (hraises | ⟨⟨front, step, back, rfl, hraises, hback⟩, hlast⟩)
      · exact ⟨steps, last, [], rfl, hraises, List.not_mem_nil⟩
      · refine ⟨front, step, back ++ [last], by simp, hraises, ?_⟩
        simp [hback, hlast.symm]
    · rintro ⟨front, step, back, hsteps, hraises, hback⟩
      rcases List.eq_nil_or_concat back with rfl | ⟨back, last', rfl⟩
      · obtain ⟨rfl, hlast⟩ := List.append_inj' hsteps rfl
        cases hlast
        exact .inl hraises
      · rw [List.concat_eq_append, ← List.cons_append, ← List.append_assoc] at hsteps
        obtain ⟨rfl, hlast⟩ := List.append_inj' hsteps rfl
        cases hlast
        rw [List.concat_eq_append, List.mem_append, not_or] at hback
        refine .inr ⟨⟨front, step, back, rfl, hraises, hback.1⟩, ?_⟩
        rintro rfl
        exact hback.2 List.mem_cons_self

theorem flatMap_dispatch (config : RenderConfig) (regions : List Region) :
    regions.flatMap config.dispatch = regions.filter fun region => config.handles region.kind := by
  induction regions with
  | nil => rfl
  | cons region rest ih =>
    rw [List.flatMap_cons, List.filter_cons, ih, RenderConfig.dispatch]
    split <;> rfl

/-- **The history of a session.** After `front` come `step` and `back`. The answer and the calls of
each step are those of a step in the session that the steps before it leave. After it the token is
raised if a step up to it raised the token and none reset it since. A render leaves its text for the
steps after it; other steps leave the last text as it is. Under a raised token a render gives back
what it was given; under a clear one it runs the stages up to the first one that raises the token,
and names the stage after that one as cancelled. Tapping all hands each region of the last text, in
order, to the handler of its kind where that is installed, and says where it is. -/
theorem session_history (front back : List SessionStep) :
    let s := r.after {} front
    let outcome := r.step s step
    (r.run {} (front ++ step :: back))[front.length]? = some outcome ∧
      (outcome.session.raised = true ↔
        ∃ before raising later, front ++ [step] = before ++ raising :: later ∧
          r.Raises (r.after {} before) raising ∧ .reset ∉ later) ∧
      (input? s step = none → outcome.session.lastText = s.lastText) ∧
      (∀ input, input? s step = some input →
        let report := r.report s.raised input
        renderLoop r.config s.raised input []
              (ListedStage.ofStages r.stopAfter r.stages) =
            (report, outcome.session.raised) ∧
          outcome.session.lastText = report.text ∧
          (step = .render input → outcome.answer = .report report) ∧
          (step = .renderAgain → outcome.answer = .text report.text) ∧
          (s.raised = true → r.stages ≠ [] → report = ⟨input, [], r.stages.head?⟩) ∧
          (s.raised = false →
            let ran := stagesThrough r.stopAfter r.stages
            ran.foldlM (fun t s => s.run r.config (.always false) t) input = some report.text ∧
              report.completed = ran ∧ report.cancelled = r.stages[ran.length]?)) ∧
      (step = .tapAll →
        let regions := s.lastText.regions.map Prod.snd
        outcome.answer = .allHandled (regions.map fun region => r.config.handles region.kind) ∧
          outcome.calls = regions.filter fun region => r.config.handles region.kind) := by
  intro s outcome
  refine ⟨r.getElem?_run {} step front back, ?_, r.step_of_input?_eq_none s step, ?_, ?_⟩
  · have h := r.raised_after_iff (front ++ [step])
    rwa [after_concat] at h
  · intro input hinput report
    have hsession : outcome.session = r.afterRender s report := r.step_of_input? s step hinput
    refine ⟨?_, ?_, ?_, ?_, ?_, ?_⟩
    · rw [renderLoop_ofStages, hsession]
      rfl
    · rw [hsession]
      rfl
    · rintro rfl
      rfl
    · rintro rfl
      cases hinput
      rfl
    · intro hraised _
      have h := renderWith_raised r.config r.stopAfter r.stages input 0
      rwa [← hraised] at h
    · intro hclear ran
      have h := renderWith_clear r.config r.stopAfter r.stages input 0
      rw [← hclear] at h
      rw [show report = _ from h]
      exact ⟨foldlM_run_always r.config input ran, rfl, rfl⟩
  · rintro rfl
    exact ⟨rfl, flatMap_dispatch r.config _⟩

end Renderer

end Passage
