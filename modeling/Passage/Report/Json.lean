import Passage.Report.Document
import Passage.Text.Decimal

/-! Documents in JSON, each item and field on a line of its own. A variant is an object
with one field. -/

namespace Passage.Json

def hexDigit (n : Nat) : Char :=
  Nat.digitChar n

def escape (c : Char) : List Char :=
  match c with
  | '"' => "\\\"".toList
  | '\\' => "\\\\".toList
  | '\n' => "\\n".toList
  | '\r' => "\\r".toList
  | '\t' => "\\t".toList
  | '\x08' => "\\b".toList
  | '\x0c' => "\\f".toList
  | _ =>
    if c.toNat < 0x20 then "\\u00".toList ++ [hexDigit (c.toNat / 16), hexDigit (c.toNat % 16)]
    else [c]

def quoted (cs : List Char) : List Char :=
  '"' :: cs.flatMap escape ++ ['"']

/-- A line end and the indent of the next line. -/
def newline (indent : Nat) : List Char :=
  '\n' :: List.replicate indent ' '

mutual

/-- A document whose first line is indented already. -/
def write (indent : Nat) : Document → List Char
  | .null => "null".toList
  | .number n => Text.decimal n
  | .text cs => quoted cs
  | .list [] => "[]".toList
  | .list (d :: ds) =>
    '[' :: newline (indent + 2) ++ write (indent + 2) d ++ writeItems (indent + 2) ds ++
      newline indent ++ [']']
  | .record [] => ['{', '}']
  | .record ((name, d) :: fs) =>
    '{' :: newline (indent + 2) ++ quoted name.toList ++ [':', ' '] ++ write (indent + 2) d ++
      writeFields (indent + 2) fs ++ newline indent ++ ['}']
  | .variant name d =>
    '{' :: newline (indent + 2) ++ quoted name.toList ++ [':', ' '] ++ write (indent + 2) d ++
      newline indent ++ ['}']

def writeItems (indent : Nat) : List Document → List Char
  | [] => []
  | d :: ds => ',' :: newline indent ++ write indent d ++ writeItems indent ds

def writeFields (indent : Nat) : List (String × Document) → List Char
  | [] => []
  | (name, d) :: fs =>
    ',' :: newline indent ++ quoted name.toList ++ [':', ' '] ++ write indent d ++
      writeFields indent fs

end

end Passage.Json
