import Passage.CommandLine.Flag

/-! Reading the command line, from left to right: options, a command, and then the command's
options around one path. An option has its long name after two hyphens, or
its letter after one, and letters may stand together. A value follows as the next argument,
or in the same one: after `=`, or, for a letter, right behind it. An option is
given once at most before the command and once after it. After `--` there are only
paths. The first fault ends the reading, and so does a wish for help or the version. -/

namespace Passage

/-- Why the reading ends before the end of the arguments. -/
inductive Stop
  | help
  | version
  | usage
deriving DecidableEq

/-- The options with their values, and the paths, that were read so far. -/
structure Given where
  flags : List (Flag × List Char) := []
  paths : List (List Char) := []

namespace Given

def has (g : Given) (f : Flag) : Bool :=
  g.flags.any fun p => p.1 = f

def value? (g : Given) (f : Flag) : Option (List Char) :=
  (g.flags.find? fun p => p.1 = f).map Prod.snd

def accepts (f : Flag) (value : List Char) : Bool :=
  f != .format || (Format.ofName? (String.ofList value)).isSome

def add (g : Given) (f : Flag) (value : List Char) : Except Stop Given :=
  if f = .help then .error .help
  else if f = .version then .error .version
  else if g.has f || !accepts f value then .error .usage
  else .ok { g with flags := (f, value) :: g.flags }

/-- Notes a path, of which there is one. -/
def addPath (g : Given) (path : List Char) : Except Stop Given :=
  if g.paths.isEmpty then .ok { g with paths := [path] } else .error .usage

/-- Reads an option from its long name on. The second part is the option that waits for the
next argument as its value. -/
def readLong (known : List Flag) (g : Given) (cs : List Char) :
    Except Stop (Given × Option Flag) :=
  match known.find? (fun f => f.name.toList = cs.takeWhile (· != '=')),
      cs.dropWhile (· != '=') with
  | none, _ => .error .usage
  | some f, [] =>
    if f.takesValue then .ok (g, some f) else (g.add f []).map fun g => (g, none)
  | some f, _ :: value =>
    if f.takesValue then (g.add f value).map fun g => (g, none) else .error .usage

/-- Reads letters. The first with a value takes the letters after it for its value. -/
def readLetters (known : List Flag) (g : Given) :
    List Char → Except Stop (Given × Option Flag)
  | [] => .ok (g, none)
  | c :: cs =>
    match known.find? (fun f => f.letter? = some c) with
    | none => .error .usage
    | some f =>
      if f.takesValue then
        match cs with
        | [] => .ok (g, some f)
        | '=' :: value => (g.add f value).map fun g => (g, none)
        | value => (g.add f value).map fun g => (g, none)
      else (g.add f []).bind fun g => readLetters known g cs

/-- Whether an argument is made of options. A single hyphen is not. -/
def isFlags (arg : List Char) : Bool :=
  arg.head? = some '-' && arg != ['-']

def readFlags (known : List Flag) (g : Given) (arg : List Char) :
    Except Stop (Given × Option Flag) :=
  match arg with
  | '-' :: '-' :: cs => g.readLong known cs
  | _ => g.readLetters known (arg.drop 1)

/-- Reads the arguments after a command; `waiting` is the option whose value is next. -/
def readAll (known : List Flag) (g : Given) (waiting : Option Flag) :
    List (List Char) → Except Stop Given
  | [] => if waiting.isSome then .error .usage else .ok g
  | arg :: rest =>
    match waiting with
    | some f =>
      if isFlags arg then .error .usage
      else (g.add f arg).bind fun g => g.readAll known none rest
    | none =>
      if arg = ['-', '-'] then rest.foldlM addPath g
      else if isFlags arg then
        (g.readFlags known arg).bind fun (g, waiting) => g.readAll known waiting rest
      else (g.addPath arg).bind fun g => g.readAll known none rest

end Given

structure SettingsOptions where
  file : Option (List Char)
  verses : Option (List Char)
  noVerses : Bool
  suppressLeading : Bool
  breakBefore : Bool

inductive Command
  | render (path : List Char) (format : Format) (cancelAfter : Option (List Char))
      (settings : SettingsOptions)
  | heading (path : List Char)
  | view (path : List Char) (settings : SettingsOptions)

namespace Command

def settingsOf (g : Given) : SettingsOptions where
  file := g.value? .settings
  verses := g.value? .verses
  noVerses := g.has .noVerses
  suppressLeading := g.has .suppressLeading
  breakBefore := g.has .breakBefore

/-- The format that was chosen; markup if none was. -/
def formatOf (g : Given) : Format :=
  ((g.value? .format).bind fun cs => Format.ofName? (String.ofList cs)).getD .markup

def ofGiven (v : Verb) (g : Given) : Except Stop Command :=
  match g.paths with
  | [] => .error .usage
  | path :: _ =>
    match v with
    | .render => .ok (render path (formatOf g) (g.value? .cancelAfter) (settingsOf g))
    | .heading => .ok (heading path)
    | .view => .ok (view path (settingsOf g))

/-- What a wish for help about a command ends with. -/
def helpOn (names : List (List Char)) : Stop :=
  match names with
  | [] => .help
  | [name] =>
    if name = "help".toList || (Verb.ofName? (String.ofList name)).isSome then .help
    else .usage
  | _ => .usage

/-- Reads the arguments, with what was given before the command. -/
def readFrom (g : Given) : List (List Char) → Except Stop Command
  | [] => .error .usage
  | arg :: rest =>
    if arg = ['-', '-'] then .error .usage
    else if Given.isFlags arg then
      (g.readFlags Flag.general arg).bind fun (g, _) => readFrom g rest
    else
      match Verb.ofName? (String.ofList arg) with
      | some v => (Given.readAll v.flags {} none rest).bind (ofGiven v)
      | none => .error (if arg = "help".toList then helpOn rest else .usage)

def read (args : List (List Char)) : Except Stop Command :=
  readFrom {} args

end Command

end Passage
