import Passage.Text.Decimal
import Passage.Toml.Document

/-! Layers of settings. A layer is a table; laid over another it wins key by key, tables
going into tables and every other value replacing what was there as a whole. Keys are
compared in lower case. A table that is empty leaves what was there, whatever it
was; any other table replaces a value that is no table. A key at the top of a layer
may be a path to a place inside, even to a place in an array. -/

namespace Passage.Layer

/-- A character in lower case, as far as that is a letter of ASCII. -/
def lowerChar (c : Char) : Char :=
  if c = '\u212a' then 'k' else c.toLower

def lowerKey (key : List Char) : List Char :=
  key.map lowerChar

/-- The entries of a table; other values have none. -/
def entriesOf : Option Toml → Toml.Entries
  | some (.table _ es) => es
  | _ => []

/-- The items of an array; other values have none. -/
def itemsOf : Option Toml → List Toml
  | some (.array items) => items
  | _ => []

mutual

/-- What stands in the place of `base` once a value is laid over it. -/
def overlay (base : Option Toml) : Toml → Toml
  | .table _ [] => base.getD (.table .defined [])
  | .table _ (e :: es) => .table .defined (overlayAll (entriesOf base) (e :: es))
  | v => v

/-- The entries of a table once others are laid over them. -/
def overlayAll (es : Toml.Entries) : Toml.Entries → Toml.Entries
  | [] => es
  | (key, v) :: rest =>
    let key := lowerKey key
    overlayAll (Toml.assign es key (overlay (Toml.lookup? es key) v)) rest

end

/-! ## Paths -/

/-- One step of a path: into a table, or into an array, where negative numbers count from
the end. -/
inductive Step
  | key (name : List Char)
  | item (index : Int)
deriving DecidableEq, Repr

def isPathChar (c : Char) : Bool :=
  c.isAlphanum || c == '_' || c == '-' || c == ' '

/-- The number between brackets, with spaces and tabs around it. -/
def readIndex? (cs : List Char) : Option Int :=
  let isSpace (c : Char) : Bool := c == ' ' || c == '\t'
  match ((cs.dropWhile isSpace).reverse.dropWhile isSpace).reverse with
  | '-' :: ds => (Text.readDecimal? (Nat.pow 2 63) ds).map fun n => -n
  | ds => (Text.readDecimal? (Nat.pow 2 63) ds).map fun n => n

/-- Reads the steps of a path, each name after a dot. -/
def readSteps? : Nat → List Char → Option (List Step)
  | _, [] => some []
  | fuel + 1, '.' :: cs =>
    let name := cs.takeWhile isPathChar
    if name.isEmpty then none
    else (readSteps? fuel (cs.drop name.length)).map (.key name :: ·)
  | fuel + 1, '[' :: cs => do
    let inner := cs.takeWhile (· != ']')
    let index ← readIndex? inner
    match cs.drop inner.length with
    | _ :: rest => return .item index :: (← readSteps? fuel rest)
    | [] => none
  | _, _ => none

/-- The path that a key at the top of a layer names: the key itself where it does not read as
a path. -/
def pathOf (key : List Char) : List Step :=
  (readSteps? (key.length + 1) ('.' :: key)).getD [.key key]

/-- The place of an index in an array; none before its start. -/
def placeOf? (length : Nat) (index : Int) : Option Nat :=
  if 0 ≤ index then some index.toNat
  else if index.natAbs ≤ length then some (length - index.natAbs)
  else none

/-- What fills an array up to a place that is set: an empty table, which is no setting's
value. -/
def unset : Toml := .table .defined []

/-- What stands in the place of `base` once a value is put at the end of a path from there. In a
table it is laid over what was there, in an array it replaces it; values on the way that
cannot be entered give way. -/
def put? (base : Option Toml) (v : Toml) : List Step → Option Toml
  | [] => some v
  | [.key name] => some (overlay base (.table .defined [(name, v)]))
  | .key name :: path => do
    let es := entriesOf base
    let name := lowerKey name
    return .table .defined (Toml.assign es name (← put? (Toml.lookup? es name) v path))
  | .item index :: path => do
    let items := itemsOf base
    let place ← placeOf? items.length index
    let items := items ++ List.replicate (place + 1 - items.length) unset
    return .array (items.set place (← put? items[place]? v path))

/-- The entries of a layer laid over the ones below. -/
def lay? (es : Toml.Entries) (layer : Toml.Entries) : Option Toml.Entries :=
  layer.foldlM (fun es e =>
    (put? (some (.table .defined es)) e.2 (pathOf e.1)).map fun t => entriesOf (some t)) es

end Passage.Layer
