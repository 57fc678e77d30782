import Passage.Render.Config
import Passage.Settings.Convert
import Passage.Settings.Layer

/-! Settings for a render: the defaults, files laid over them in order, and then single
keys. Only the values in effect are judged, so a bad value under a good one does no harm.
The bounds of the expected verses are judged when a configuration is made. -/

namespace Passage

/-- The settings of a render, as a file can give them. -/
structure RenderSettings where
  renderVerses : Bool
  expectedVerses : List Nat
  suppressLeadingHeading : Bool
  breakBeforeVerses : Bool
deriving DecidableEq

inductive SettingsError
  | load
  | invalid (error : BoundsError)
deriving DecidableEq

def SettingsError.message : SettingsError → String
  | load => "failed to load settings"
  | invalid error => "invalid settings: " ++ error.message

/-- A single key that is set on top of all files. -/
inductive Override
  | renderVerses (b : Bool)
  | expectedVerses (ns : List Nat)
  | suppressLeadingHeading (b : Bool)
  | breakBeforeVerses (b : Bool)

namespace RenderSettings

def tableKey : List Char := "render".toList

def renderVersesKey : List Char := "render_verses".toList

def expectedVersesKey : List Char := "expected_verses".toList

def suppressLeadingHeadingKey : List Char :=
  "suppress_leading_major_section_headings".toList

def breakBeforeVersesKey : List Char := "break_before_verses".toList

def keys : List (List Char) :=
  [renderVersesKey, expectedVersesKey, suppressLeadingHeadingKey, breakBeforeVersesKey]

def valueIn? (es : Toml.Entries) (key : List Char) : Option Toml :=
  Toml.lookup? (Layer.entriesOf (Toml.lookup? es tableKey)) key

def defaults : Toml.Entries :=
  [(tableKey, .table .defined
    [(renderVersesKey, .boolean true), (expectedVersesKey, .array []),
     (suppressLeadingHeadingKey, .boolean false), (breakBeforeVersesKey, .boolean false)])]

/-- Settings from the values of the keys, in their order. -/
def ofValues? (renderVerses expectedVerses suppress breakBefore : Toml) :
    Option RenderSettings := do
  return ⟨← Convert.toBool? renderVerses, ← Convert.toNumbers? expectedVerses,
    ← Convert.toBool? suppress, ← Convert.toBool? breakBefore⟩

/-- Settings from the layers' values: a table by its keys, an array by its places. -/
def ofEntries? (es : Toml.Entries) : Option RenderSettings :=
  match Toml.lookup? es tableKey with
  | some (.table _ es) => do
    ofValues? (← Toml.lookup? es renderVersesKey) (← Toml.lookup? es expectedVersesKey)
      (← Toml.lookup? es suppressLeadingHeadingKey) (← Toml.lookup? es breakBeforeVersesKey)
  | some (.array (a :: b :: c :: d :: _)) => ofValues? a b c d
  | _ => none

def toConfig (s : RenderSettings) : Except BoundsError RenderConfig :=
  (ExpectedVerses.ofBounds s.expectedVerses).map fun expected =>
    { renderVerses := s.renderVerses
      expected
      suppressLeadingHeading := s.suppressLeadingHeading
      breakBeforeVerses := s.breakBeforeVerses }

end RenderSettings

namespace Override

def key : Override → List Char
  | renderVerses _ => RenderSettings.renderVersesKey
  | expectedVerses _ => RenderSettings.expectedVersesKey
  | suppressLeadingHeading _ => RenderSettings.suppressLeadingHeadingKey
  | breakBeforeVerses _ => RenderSettings.breakBeforeVersesKey

def value : Override → Toml
  | renderVerses b | suppressLeadingHeading b | breakBeforeVerses b => .boolean b
  | expectedVerses ns => .array (ns.map fun n : Nat => .integer n)

def entries (o : Override) : Toml.Entries :=
  [(RenderSettings.tableKey, .table .defined [(o.key, o.value)])]

end Override

/-- The layers of files and overrides over the defaults; none if a file does not exist
(`none` in the list) or is no TOML document. -/
def layers? (files : List (Option (List Char))) (overrides : List Override) :
    Option Toml.Entries := do
  let layers ← files.mapM fun file => file.bind Toml.readDocument?
  return overrides.foldl (fun es o => Layer.overlayAll es o.entries)
    (← layers.foldlM Layer.lay? RenderSettings.defaults)

/-- Loads settings from files, in order, and overrides on top of them. -/
def loadSettings (files : List (Option (List Char))) (overrides : List Override) :
    Except SettingsError RenderSettings :=
  match (layers? files overrides).bind RenderSettings.ofEntries? with
  | some s => .ok s
  | none => .error .load

/-- A call on a loader: one more file, or one key set. -/
inductive LoaderCall
  | file (text : Option (List Char))
  | set (o : Override)

/-- A loader of settings: files in the order in which they were given, and for each key that
was set the last override of it. -/
structure SettingsLoader where
  files : List (Option (List Char)) := []
  overrides : List Override := []

namespace SettingsLoader

def call (l : SettingsLoader) : LoaderCall → SettingsLoader
  | .file text => { l with files := l.files ++ [text] }
  | .set o => { l with overrides := l.overrides.filter (·.key ≠ o.key) ++ [o] }

/-- A loader with nothing but the defaults, after calls. -/
def ofCalls (calls : List LoaderCall) : SettingsLoader :=
  calls.foldl call {}

def load (l : SettingsLoader) : Except SettingsError RenderSettings :=
  loadSettings l.files l.overrides

/-- The value in effect for a key, not yet converted. -/
def raw? (l : SettingsLoader) (key : List Char) : Option Toml :=
  (layers? l.files l.overrides).bind fun es => RenderSettings.valueIn? es key

end SettingsLoader

end Passage
