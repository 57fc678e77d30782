import Passage.Text.Utf8

/-! The files that a command can read. Reading gives bytes or the cause why there are
none. A folder that is known in full is such a reading, too: a path is walked name by
name from there or from the root, and the first name that leads nowhere is the
cause. -/

namespace Passage

inductive FileError
  | notFound
  | notDirectory
  | isDirectory
  | nameTooLong
  | other (reason : String)
deriving DecidableEq

def FileError.message : FileError → String
  | notFound => "No such file or directory (os error 2)"
  | notDirectory => "Not a directory (os error 20)"
  | isDirectory => "Is a directory (os error 21)"
  | nameTooLong => "File name too long (os error 36)"
  | other reason => reason

/-- What reading the file at a path gives. -/
abbrev Files := List Char → Except FileError (List UInt8)

namespace Files

def namesOf (path : List Char) : List (List Char) :=
  (path.splitOn '/').filter fun name => name != [] && name != ['.']

/-- The bytes of a name are at most this many. -/
def maxName : Nat := 255

/-- The bytes of a path are fewer than this many. -/
def maxPath : Nat := 4096

/-- The folders that every system has at its root. -/
def rootFolders : List (List Char) :=
  ["bin", "boot", "dev", "etc", "home", "lib", "media", "mnt", "opt", "proc", "root", "run",
    "sbin", "srv", "sys", "tmp", "usr", "var"].map String.toList

/-- Where a walk along a path stands. -/
inductive Place
  | file (bytes : List UInt8)
  /-- A folder under the one that is known. -/
  | inside (names : List (List Char))
  /-- A folder above the one that is known, or the root. -/
  | outside (root : Bool)
  /-- A folder at the root. -/
  | system

def Place.entry (entries : List (List Char × List UInt8)) (name : List Char) :
    Place → Except FileError Place
  | .file _ => .error .notDirectory
  | .inside names =>
    let names := names ++ [name]
    match entries.find? fun e => namesOf e.1 = names with
    | some (_, bytes) => .ok (.file bytes)
    | none =>
      if entries.any fun e => names.isPrefixOf (namesOf e.1) then .ok (.inside names)
      else .error .notFound
  | .outside root => if root && rootFolders.contains name then .ok .system else .error .notFound
  | .system => .error .notFound

def Place.parent : Place → Place
  | .inside names => if names.isEmpty then .outside false else .inside names.dropLast
  | .system => .outside true
  | p => p

def Place.step (entries : List (List Char × List UInt8)) (p : Place) (name : List Char) :
    Except FileError Place :=
  match p with
  | .file _ => .error .notDirectory
  | _ =>
    if name = [] || name = ['.'] then .ok p
    else if name = ['.', '.'] then .ok p.parent
    else if maxName < Text.byteLength name then .error .nameTooLong
    else p.entry entries name

/-- The files of one folder and the folders in it; paths start from there. -/
def ofList (entries : List (List Char × List UInt8)) : Files := fun path =>
  if path.isEmpty then .error .notFound
  else if maxPath ≤ Text.byteLength path then .error .nameTooLong
  else
    let start := if path.head? = some '/' then Place.outside true else .inside []
    match (path.splitOn '/').foldlM (Place.step entries) start with
    | .error e => .error e
    | .ok (.file bytes) => .ok bytes
    | .ok _ => .error .isDirectory

end Files

end Passage
