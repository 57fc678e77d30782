import Passage.Text.Decode
import Passage.Text.Literal
import Passage.Toml.Quoted

/-! TOML documents. Entries stand on lines of their own, under the header before them;
arrays may run over several lines, inline tables may not. Any fault refuses the whole
document, and so does nesting that is too deep. `fuel` bounds the number of steps by the
length of the text, `depth` counts the arrays and inline tables around a value. -/

namespace Passage.Toml

/-- The text without the spaces and tabs at its start. -/
def skipSpace (cs : List Char) : List Char :=
  cs.dropWhile fun c => c == ' ' || c == '\t'

def skipComment (cs : List Char) : List Char :=
  match cs with
  | '#' :: rest => rest.dropWhile isStringChar
  | _ => cs

def skipLines : Nat → List Char → List Char
  | 0, cs => cs
  | fuel + 1, cs =>
    let rest := skipComment (skipSpace cs)
    match dropNewline? rest with
    | some rest => skipLines fuel rest
    | none => rest

/-- What follows an entry or a header: nothing but a comment on its line. -/
def endLine? (cs : List Char) : Option (List Char) :=
  match skipComment (skipSpace cs) with
  | [] => some []
  | rest => dropNewline? rest

def isKeyChar (c : Char) : Bool :=
  c.isAlphanum || c == '-' || c == '_'

/-- Reads one part of a key. Triple quotes are no key. -/
def readKeyPart? (cs : List Char) : Option (List Char × List Char) :=
  match cs with
  | '"' :: rest => readBasic? (rest.length + 1) rest
  | '\'' :: rest => readLiteral? rest
  | _ =>
    let key := cs.takeWhile isKeyChar
    if key.isEmpty then none else some (key, cs.dropWhile isKeyChar)

/-- Values are nested less deep than this, and a dotted key has fewer parts. -/
def maxDepth : Nat := 80

/-- Reads the parts of a dotted key, with space around the dots. -/
def readKeyParts? : Nat → List Char → Option (List (List Char) × List Char)
  | 0, _ => none
  | fuel + 1, cs => do
    let (part, rest) ← readKeyPart? (skipSpace cs)
    match skipSpace rest with
    | '.' :: rest =>
      let (more, rest) ← readKeyParts? fuel rest
      return (part :: more, rest)
    | rest => return ([part], rest)

def readKey? (cs : List Char) : Option (List (List Char) × List Char) := do
  let (key, rest) ← readKeyParts? (cs.length + 1) cs
  if key.length < maxDepth then some (key, rest) else none

def defineKey (es : Entries) (key : List (List Char)) (v : Toml) : Option Entries :=
  key.getLast?.bind fun last => define es key.dropLast last v

mutual

def readValue? (depth : Nat) : Nat → List Char → Option (Toml × List Char)
  | 0, _ => none
  | fuel + 1, cs =>
    match cs with
    | '[' :: rest =>
      if depth + 1 < maxDepth then do
        let (items, rest) ← readItems? (depth + 1) fuel (skipLines rest.length rest)
        return (array items, rest)
      else none
    | '{' :: rest =>
      if depth + 1 < maxDepth then do
        match skipSpace rest with
        | '}' :: rest => return (table .inlined [], rest)
        | rest =>
          let (es, rest) ← readEntries? (depth + 1) fuel [] rest
          return (table .inlined es, rest)
      else none
    | '"' :: _ | '\'' :: _ => do
      let (text, rest) ← readString? cs
      return (string text, rest)
    | _ =>
      let (token, rest) := splitToken cs
      (readToken? token).map fun v => (v, rest)

/-- Reads the items of an array and its closing bracket. -/
def readItems? (depth : Nat) : Nat → List Char → Option (List Toml × List Char)
  | 0, _ => none
  | fuel + 1, cs =>
    match cs with
    | ']' :: rest => some ([], rest)
    | _ => do
      let (v, rest) ← readValue? depth fuel cs
      match skipLines rest.length rest with
      | ']' :: rest => return ([v], rest)
      | ',' :: rest =>
        let (more, rest) ← readItems? depth fuel (skipLines rest.length rest)
        return (v :: more, rest)
      | _ => none

/-- Reads the entries of an inline table, of which there is at least one more, and its
closing brace. -/
def readEntries? (depth : Nat) : Nat → Entries → List Char → Option (Entries × List Char)
  | 0, _, _ => none
  | fuel + 1, es, cs => do
    let (key, rest) ← readKey? cs
    let rest ← Text.dropLiteral? ['='] rest
    let (v, rest) ← readValue? depth fuel (skipSpace rest)
    let es ← defineKey es key v
    match skipSpace rest with
    | ',' :: rest => readEntries? depth fuel es rest
    | '}' :: rest => return (es, rest)
    | _ => none

end

/-- Reads `key = value`. -/
def readEntry? (cs : List Char) : Option (List (List Char) × Toml × List Char) := do
  let (key, rest) ← readKey? cs
  let rest ← Text.dropLiteral? ['='] rest
  let (v, rest) ← readValue? 0 (2 * cs.length + 2) (skipSpace rest)
  return (key, v, rest)

/-- Adds an entry under the header `header`. -/
def defineUnder (es : Entries) (header key : List (List Char)) (v : Toml) : Option Entries :=
  changeAt false (fun _ inner => defineKey inner key v) .defined es header

/-- Reads the lines of a document; `header` is the last header and `es` what is defined. -/
def readFrom? : Nat → List (List Char) → Entries → List Char → Option Entries
  | 0, _, _, _ => none
  | fuel + 1, header, es, cs =>
    match skipLines cs.length cs with
    | [] => some es
    | '[' :: '[' :: rest => do
      let (key, rest) ← readKey? rest
      let rest ← Text.dropLiteral? [']', ']'] rest
      let last ← key.getLast?
      readFrom? fuel key (← openNext es key.dropLast last) (← endLine? rest)
    | '[' :: rest => do
      let (key, rest) ← readKey? rest
      let rest ← Text.dropLiteral? [']'] rest
      let last ← key.getLast?
      readFrom? fuel key (← openTable es key.dropLast last) (← endLine? rest)
    | rest => do
      let (key, v, rest) ← readEntry? rest
      readFrom? fuel header (← defineUnder es header key v) (← endLine? rest)

/-! ## Moments in tables -/

/-- The key that, where it comes first, makes a table stand for the moment in its string. -/
def momentKey : List Char := "$__toml_private_datetime".toList

mutual

/-- A value with its moments in the place of the tables that stand for them, and one array
for the tables of double-bracket headers; none if such a table holds no moment. -/
def settle? : Toml → Option Toml
  | table origin es => settleTable? origin es
  | array items => (settleItems? items).map array
  | tables each => (settleTables? each).map array
  | v => some v

def settleTable? (origin : TableOrigin) : Entries → Option Toml
  | [] => some (table origin [])
  | (key, v) :: es =>
    if key = momentKey then
      match v with
      | string cs => if isMoment cs then some (moment cs) else none
      | _ => none
    else do
      let v ← settle? v
      return table origin ((key, v) :: (← settleEntries? es))

def settleEntries? : Entries → Option Entries
  | [] => some []
  | (key, v) :: es => do
    let v ← settle? v
    return (key, v) :: (← settleEntries? es)

def settleItems? : List Toml → Option (List Toml)
  | [] => some []
  | v :: vs => do
    let v ← settle? v
    return v :: (← settleItems? vs)

def settleTables? : List Entries → Option (List Toml)
  | [] => some []
  | es :: each => do
    let v ← settleTable? .defined es
    return v :: (← settleTables? each)

end

/-- Reads a document; a byte order mark at its start is skipped. The document itself must not
stand for a moment. -/
def readDocument? (cs : List Char) : Option Entries := do
  let cs := Text.skipMark cs
  match ← settleTable? .defined (← readFrom? (cs.length + 1) [] [] cs) with
  | table _ es => some es
  | _ => none

end Passage.Toml
