import Passage.Render.Report

/-! The render loop over a token that it may raise itself. The token is a flag that stays as it is
until somebody writes it: it is read before each stage and by the stage before each match, and the
stage after which a render is to stop writes it once it has run, whatever came of it. -/

namespace Passage

/-- A stage as it stands in a list, and whether it raises the token once it has run. -/
structure ListedStage where
  stage : Stage
  raises : Bool := false

namespace ListedStage

/-- The stages as they stand in a list in which the first one of a name raises the token. -/
def ofStages (stopAfter : Option Stage) : List Stage → List ListedStage
  | [] => []
  | s :: rest =>
    if stopAfter = some s then ⟨s, true⟩ :: rest.map (⟨·, false⟩)
    else ⟨s, false⟩ :: ofStages stopAfter rest

end ListedStage

/-- The loop over the stages that are left: the token is `raised`, and the `completed` stages have
made `t` of the input. It gives the report and the token as it leaves it. -/
def renderLoop (config : RenderConfig) (raised : Bool) (t : StyledText) (completed : List Stage) :
    List ListedStage → Report × Bool
  | [] => (⟨t, completed, none⟩, raised)
  | s :: rest =>
    if raised then (⟨t, completed, some s.stage⟩, raised)
    else
      match s.stage.run config (.always raised) t with
      | none => (⟨t, completed, some s.stage⟩, raised || s.raises)
      | some out => renderLoop config (raised || s.raises) out (completed ++ [s.stage]) rest

end Passage
