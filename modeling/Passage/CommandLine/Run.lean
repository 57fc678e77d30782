import Passage.CommandLine.Arguments
import Passage.CommandLine.Files
import Passage.Report.Json
import Passage.Report.Yaml
import Passage.Render.Session
import Passage.Settings.Load
import Passage.Styled.Markup
import Passage.Text.Decode
import Passage.Verse.Bounds

/-! Running a command: what the program prints, from the arguments and the files alone. A
command checks its options first, then the settings, then the stage it is to stop
after, and reads its source last; the first fault is the one it reports. -/

namespace Passage

inductive SourceError
  | file (error : FileError)
  | encoding
deriving DecidableEq

def SourceError.message : SourceError → String
  | file error => error.message
  | encoding => "stream did not contain valid UTF-8"

inductive ConfigurationError
  | verses (error : VerseError)
  | settings (error : SettingsError)
deriving DecidableEq

def ConfigurationError.message : ConfigurationError → String
  | verses error => error.message
  | settings error => error.message

inductive ViewerError
  | source (error : SourceError)
  | bounds (error : BoundsError)
  | terminal
deriving DecidableEq

def ViewerError.message : ViewerError → String
  | source error => error.message
  | bounds error => error.message
  | terminal => "No such device or address (os error 6)"

inductive CommandError
  | configuration (error : ConfigurationError)
  | unknownStage (name : List Char)
  | source (error : SourceError)
  | viewer (error : ViewerError)
deriving DecidableEq

def CommandError.message : CommandError → String
  | configuration error => "Configuration error: " ++ error.message
  | unknownStage name =>
    "Unknown stage '" ++ String.ofList name ++ "'. Stages: " ++
      ", ".intercalate (Stage.all.map Stage.name)
  | source error => "Error reading file: " ++ error.message
  | viewer error => "Error: " ++ error.message

namespace Files

def source (files : Files) (path : List Char) : Except SourceError (List Char) :=
  match files path with
  | .error e => .error (.file e)
  | .ok bytes =>
    match Text.decode? bytes with
    | some cs => .ok cs
    | none => .error .encoding

/-- The path up to its last name, which must be the name of an entry. -/
def upToName? (path : List Char) : Option (List Char) :=
  let kept := ((path.splitOn '/').reverse.dropWhile fun name => name = [] || name = ['.']).reverse
  match kept.getLast? with
  | none | some ['.', '.'] => none
  | some _ => some (['/'].intercalate kept)

/-- The paths where a settings file is looked up, in this order: as it is given, and with an
ending added to its name. -/
def settingsPaths (path : List Char) : List (List Char) :=
  path :: (upToName? path).toList.map (· ++ ".toml".toList)

/-- The text of a settings file; none if there is no file, or no text in it. -/
def settings? (files : Files) (path : List Char) : Option (List Char) :=
  ((settingsPaths path).findSome? fun path => (files path).toOption).bind Text.decode?

end Files

namespace SettingsOptions

/-- What the options ask of a loader of settings. -/
def calls (files : Files) (o : SettingsOptions) : Except VerseError (List LoaderCall) := do
  let bounds ← o.verses.toList.mapM ExpectedVerses.readBounds
  let overrides := bounds.map Override.expectedVerses ++
    (if o.noVerses then [.renderVerses false] else []) ++
    (if o.suppressLeading then [.suppressLeadingHeading true] else []) ++
    (if o.breakBefore then [.breakBeforeVerses true] else [])
  return o.file.toList.map (.file <| files.settings? ·) ++ overrides.map .set

def load (files : Files) (o : SettingsOptions) : Except ConfigurationError RenderSettings := do
  let calls ← (o.calls files).mapError .verses
  (SettingsLoader.ofCalls calls).load.mapError .settings

def config (files : Files) (o : SettingsOptions) : Except ConfigurationError RenderConfig := do
  let settings ← o.load files
  settings.toConfig.mapError fun e => .settings (.invalid e)

end SettingsOptions

def Report.print (r : Report) : Format → List Char
  | .markup => r.text.markup.toList
  | .plain => r.text.text
  | .json => Json.write 0 (Document.ofReport r)
  | .yaml => Yaml.write (Document.ofReport r)

/-- The text with a line end, if it has none at its end. -/
def endLine (cs : List Char) : List Char :=
  if cs.getLast? = some '\n' then cs else cs ++ ['\n']

namespace Command

def stageOf (name : List Char) : Except CommandError Stage :=
  match Stage.ofName? (String.ofList name) with
  | some s => .ok s
  | none => .error (.unknownStage name)

/-- What a command prints. There is no terminal to view a text in. -/
def output (files : Files) : Command → Except CommandError (List Char)
  | render path format cancelAfter settings => do
    let config ← (settings.config files).mapError .configuration
    let stopAfter ← cancelAfter.mapM stageOf
    let cs ← (files.source path).mapError .source
    let report := (Renderer.mk config Stage.all stopAfter).report false (.plain cs)
    return endLine (report.print format)
  | heading path => do
    let cs ← (files.source path).mapError .source
    let found := leadingHeading (.plain cs)
    return if found.isEmpty then [] else found.text ++ ['\n']
  | view path settings => do
    let settings ← (settings.load files).mapError .configuration
    let _ ← (files.source path).mapError fun e => .viewer (.source e)
    let _ ← settings.toConfig.mapError fun e => .viewer (.bounds e)
    .error (.viewer .terminal)

/-- The paths of the files that a command may read. -/
def paths : Command → List (List Char)
  | render path _ _ settings | view path settings =>
    path :: settings.file.toList.flatMap Files.settingsPaths
  | heading path => [path]

end Command

structure Outcome where
  exit : Nat
  stdout : List Char := []
  stderr : List Char := []

def versionLine : String := "usx-render 0.1.0"

def usage : String :=
  "usage: usx-render [-v] render|heading|view [options] <path>"

def run (files : Files) (args : List (List Char)) : Outcome :=
  match Command.read args with
  | .error .help => { exit := 0, stdout := endLine usage.toList }
  | .error .version => { exit := 0, stdout := endLine versionLine.toList }
  | .error .usage => { exit := 2, stderr := endLine usage.toList }
  | .ok command =>
    match command.output files with
    | .ok out => { exit := 0, stdout := out }
    | .error e => { exit := 1, stderr := e.message.toList ++ ['\n'] }

end Passage
