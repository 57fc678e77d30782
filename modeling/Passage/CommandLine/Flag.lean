/-! The commands of the program and their options. -/

namespace Passage

/-- What the program can do. -/
inductive Verb
  | render
  | heading
  | view
deriving DecidableEq

inductive Flag
  | help
  | version
  | verbose
  | format
  | cancelAfter
  | settings
  | verses
  | noVerses
  | suppressLeading
  | breakBefore
deriving DecidableEq

namespace Flag

/-- The name after two hyphens. -/
def name : Flag → String
  | help => "help"
  | version => "version"
  | verbose => "verbose"
  | format => "format"
  | cancelAfter => "cancel-after"
  | settings => "settings"
  | verses => "verses"
  | noVerses => "no-verses"
  | suppressLeading => "suppress-leading-ms"
  | breakBefore => "break-before-verses"

/-- The letter after one hyphen. -/
def letter? : Flag → Option Char
  | help => some 'h'
  | version => some 'V'
  | verbose => some 'v'
  | format => some 'f'
  | settings => some 's'
  | _ => none

def takesValue : Flag → Bool
  | format | cancelAfter | settings | verses => true
  | _ => false

/-- The options before the command. -/
def general : List Flag :=
  [help, version, verbose]

def forSettings : List Flag :=
  [settings, verses, noVerses, suppressLeading, breakBefore]

end Flag

namespace Verb

def all : List Verb :=
  [render, heading, view]

def name : Verb → String
  | render => "render"
  | heading => "heading"
  | view => "view"

def ofName? (name : String) : Option Verb :=
  all.find? fun v => v.name = name

theorem ofName?_name (v : Verb) : ofName? v.name = some v := by
  cases v <;> rfl

/-- The options after a command. -/
def flags : Verb → List Flag
  | render => [.help, .verbose, .format, .cancelAfter] ++ Flag.forSettings
  | heading => [.help, .verbose]
  | view => [.help, .verbose] ++ Flag.forSettings

end Verb

inductive Format
  | markup
  | plain
  | json
  | yaml
deriving DecidableEq

namespace Format

def all : List Format :=
  [markup, plain, json, yaml]

def name : Format → String
  | markup => "markup"
  | plain => "plain"
  | json => "json"
  | yaml => "yaml"

def ofName? (name : String) : Option Format :=
  all.find? fun f => f.name = name

theorem ofName?_name (f : Format) : ofName? f.name = some f := by
  cases f <;> rfl

end Format

end Passage
