import Passage.Report.Document
import Passage.Report.YamlScalar

/-! Documents in YAML's block style. A field's list stands under it without an indent of
its own; a variant is a tag before its fields. Every form ends its line. -/

namespace Passage.Yaml

mutual

/-- A document after the colon of a field that is indented by `indent`. -/
def afterColon (indent : Nat) : Document → List Char
  | .null => " null\n".toList
  | .number n => ' ' :: Text.decimal n ++ ['\n']
  | .text cs => ' ' :: scalar (indent + 2) cs
  | .list [] => " []\n".toList
  | .list (d :: ds) => '\n' :: items indent (d :: ds)
  | .record [] => [' ', '{', '}', '\n']
  | .record (f :: fs) => '\n' :: fields (indent + 2) (f :: fs)
  | .variant name d => " !".toList ++ name.toList ++ afterColon indent d

/-- A document after the dash of an item; its own lines are indented by `indent`. -/
def afterDash (indent : Nat) : Document → List Char
  | .null => " null\n".toList
  | .number n => ' ' :: Text.decimal n ++ ['\n']
  | .text cs => ' ' :: scalar indent cs
  | .list [] => " []\n".toList
  | .list (d :: ds) => ' ' :: '-' :: afterDash (indent + 2) d ++ items indent ds
  | .record [] => [' ', '{', '}', '\n']
  | .record ((name, d) :: fs) =>
    ' ' :: name.toList ++ ':' :: afterColon indent d ++ fields indent fs
  | .variant name d =>
    " !".toList ++ name.toList ++
      match d with
      | .record fs => '\n' :: fields indent fs
      | d => afterDash indent d

def fields (indent : Nat) : List (String × Document) → List Char
  | [] => []
  | (name, d) :: fs =>
    List.replicate indent ' ' ++ name.toList ++ ':' :: afterColon indent d ++ fields indent fs

def items (indent : Nat) : List Document → List Char
  | [] => []
  | d :: ds => List.replicate indent ' ' ++ '-' :: afterDash (indent + 2) d ++ items indent ds

end

def write : Document → List Char
  | .record fs => fields 0 fs
  | .list ds => items 0 ds
  | d => (afterColon 0 d).drop 1

end Passage.Yaml
