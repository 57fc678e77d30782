import Passage.Render.Report
import Passage.Styled.Offset

/-! The viewer: a rendered document with its tap targets, the target that is selected, how far the
document is scrolled, and a status text. Keys walk the targets in a circle; activating one hands it
to its handler, which writes the status. A key can fail at one place only, where the document is
cut at the start of a target to count the lines before it. -/

namespace Passage

/-- A key without what is held down with it. Keys that no viewer needs go by their names. -/
inductive KeyCode
  | tab
  | backTab
  | enter
  | up
  | down
  | escape
  | char (c : Char)
  | other (name : String)
deriving DecidableEq, Repr

inductive KeyModifier
  | shift
  | control
  | alt
  | other (name : String)
deriving DecidableEq, Repr

structure Key where
  code : KeyCode
  held : List KeyModifier := []
deriving DecidableEq, Repr

namespace Key

/-- Whether a key ends the viewer: `q` alone, or `c` with control. -/
def quits (k : Key) : Bool :=
  k.code = .char 'q' && k.held.isEmpty || k.code = .char 'c' && k.held.contains .control

/-- Whether a key moves the selection, whatever is held down with it. -/
def selects (k : Key) : Bool :=
  k.code = .tab || k.code = .backTab

theorem selects_iff {k : Key} : k.selects = true ↔ k.code = .tab ∨ k.code = .backTab := by
  simp [selects]

end Key

def handlerStatus (region : Region) : String :=
  match region.kind with
  | .verse => "Verse " ++ region.payload
  | .note => "Note: " ++ region.payload

/-- The status for a target whose kind has no handler. -/
def noHandlerStatus (region : Region) : String :=
  match region.kind with
  | .verse => "no handler for Verse region"
  | .note => "no handler for Note region"

structure Viewer where
  config : RenderConfig
  /-- What a handler makes of the status when a region is handed to it. -/
  handler : Region → String → String
  document : StyledText
  /-- The tap targets of the document. -/
  regions : List (Span × Region)
  selected : Option Nat := none
  scroll : Nat := 0
  status : String := ""
  quit : Bool := false

/-- What a key does: the viewer afterwards, whether the key meant anything, and the regions that
handlers were called with. -/
structure KeyOutcome where
  viewer : Viewer
  changed : Bool
  calls : List Region := []

namespace Viewer

def maxScroll : Nat := 65535

def ofSource (config : RenderConfig) (handler : Region → String → String) (status : String)
    (source : List Char) : Viewer :=
  let document := (render config Stage.all (.always false) (.plain source)).text
  { config, handler, document, regions := document.regions, status }

def selection? (v : Viewer) : Option (Span × Region) :=
  v.selected.bind fun i => v.regions[i]?

def selectedSpan? (v : Viewer) : Option Span :=
  v.selection?.map Prod.fst

/-- How many line feeds come before a byte offset of the document; none for an offset inside a
character or past the end. -/
def lineOf? (v : Viewer) (offset : Nat) : Option Nat :=
  (Text.takeBytes? offset v.document.text).map (·.count '\n')

/-- Selects a target and scrolls it to the third line where possible. -/
def select? (v : Viewer) (i : Nat) : Option Viewer :=
  match v.regions[i]? with
  | some (place, _) =>
    (v.lineOf? place.start).map fun line =>
      { v with selected := some i, scroll := min maxScroll (line - 2) }
  | none => some { v with selected := some i }

/-- The target after the selected one, in a circle of `n`. -/
def nextOf (n : Nat) : Option Nat → Nat
  | some i => (i + 1) % n
  | none => 0

/-- The target before the selected one, in a circle of `n`. -/
def previousOf (n : Nat) : Option Nat → Nat
  | some 0 | none => n - 1
  | some (i + 1) => i

/-- Moves the selection; there is none to move without targets. -/
def move? (v : Viewer) (target : Nat → Option Nat → Nat) : Option KeyOutcome :=
  if v.regions.isEmpty then some { viewer := v, changed := false }
  else
    (v.select? (target v.regions.length v.selected)).map fun v => { viewer := v, changed := true }

def activate (v : Viewer) : KeyOutcome :=
  match v.selection? with
  | none => { viewer := v, changed := false }
  | some (_, region) =>
    let calls := v.config.dispatch region
    let status :=
      if calls.isEmpty then noHandlerStatus region
      else calls.foldl (fun status called => v.handler called status) v.status
    { viewer := { v with status }, changed := true, calls }

def press? (v : Viewer) (k : Key) : Option KeyOutcome :=
  if k.quits then some { viewer := { v with quit := true }, changed := true }
  else
    match k.code with
    | .tab => v.move? nextOf
    | .backTab => v.move? previousOf
    | .enter => some v.activate
    | .down | .char 'j' =>
      some { viewer := { v with scroll := min maxScroll (v.scroll + 1) }, changed := true }
    | .up | .char 'k' => some { viewer := { v with scroll := v.scroll - 1 }, changed := true }
    | _ => some { viewer := v, changed := false }

def steps? (v : Viewer) : List Key → Option (List KeyOutcome)
  | [] => some []
  | k :: ks => do
    let outcome ← v.press? k
    return outcome :: (← steps? outcome.viewer ks)

def pressAll? (v : Viewer) (ks : List Key) : Option Viewer :=
  ks.foldlM (fun v k => (v.press? k).map KeyOutcome.viewer) v

end Viewer

end Passage
