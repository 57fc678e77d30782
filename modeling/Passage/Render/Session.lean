import Passage.Render.Report
import Passage.Styled.Offset

/-! A session with one renderer and one cancel token. The token keeps its state between
steps, and the last rendered text can be rendered again and tapped. -/

namespace Passage

/-- What stays the same in a session. -/
structure Renderer where
  config : RenderConfig
  stages : List Stage := Stage.all
  stopAfter : Option Stage := none

structure Session where
  raised : Bool := false
  lastText : StyledText := ∅

inductive SessionStep
  | render (text : StyledText)
  | renderAgain
  | regions
  | tapAll
  | dispatch (region : Region)
  | raise
  | reset
  | stageNames
  | config

inductive SessionAnswer
  | none
  | report (report : Report)
  | text (text : StyledText)
  | regions (regions : List (Span × Region))
  | handled (handled : Bool)
  | allHandled (handled : List Bool)
  | stages (stages : List Stage)
  | config (config : RenderConfig)

/-- A step's answer, the session after it, and the regions handed to handlers in it. -/
structure SessionOutcome where
  answer : SessionAnswer
  session : Session
  calls : List Region := []

namespace Renderer

/-- Renders under a token that only this render may raise. -/
def report (r : Renderer) (raised : Bool) (t : StyledText) : Report :=
  renderWith r.config r.stopAfter (.always raised) 0 r.stages t

/-- The session after a render: the token is raised if it was, or if the stage that raises it
completed. -/
def afterRender (r : Renderer) (s : Session) (report : Report) : Session :=
  ⟨s.raised || r.stopAfter.any report.completed.contains, report.text⟩

def step (r : Renderer) (s : Session) : SessionStep → SessionOutcome
  | .render text =>
    let report := r.report s.raised text
    ⟨.report report, r.afterRender s report, []⟩
  | .renderAgain =>
    let report := r.report s.raised s.lastText
    ⟨.text report.text, r.afterRender s report, []⟩
  | .regions => ⟨.regions s.lastText.regions, s, []⟩
  | .tapAll =>
    let regions := s.lastText.regions.map Prod.snd
    ⟨.allHandled (regions.map fun region => r.config.handles region.kind), s,
      regions.flatMap r.config.dispatch⟩
  | .dispatch region =>
    ⟨.handled (r.config.handles region.kind), s, r.config.dispatch region⟩
  | .raise => ⟨.none, { s with raised := true }, []⟩
  | .reset => ⟨.none, { s with raised := false }, []⟩
  | .stageNames => ⟨.stages r.stages, s, []⟩
  | .config => ⟨.config r.config, s, []⟩

def run (r : Renderer) (s : Session) : List SessionStep → List SessionOutcome
  | [] => []
  | step :: steps =>
    let outcome := r.step s step
    outcome :: r.run outcome.session steps

end Renderer

end Passage
