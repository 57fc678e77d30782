import Passage.Toml.Number

/-! TOML's quoted strings: basic strings with escapes and literal strings without, on one
line or, between triple quotes, on several. `fuel` bounds the number of characters; a
reader that is given the length of its text never runs out. -/

namespace Passage.Toml

/-- Whether a character may stand in a string as it is; quotes and backslashes are judged by
the kind of string. -/
def isStringChar (c : Char) : Bool :=
  c == '\t' || (' ' ≤ c && c != '\x7f')

/-- Reads what follows a backslash, other than a line end. -/
def readEscape? : List Char → Option (Char × List Char)
  | 'b' :: cs => some ('\x08', cs)
  | 't' :: cs => some ('\t', cs)
  | 'n' :: cs => some ('\n', cs)
  | 'f' :: cs => some ('\x0c', cs)
  | 'r' :: cs => some ('\r', cs)
  | '"' :: cs => some ('"', cs)
  | '\\' :: cs => some ('\\', cs)
  | 'u' :: cs => ofCode 4 cs
  | 'U' :: cs => ofCode 8 cs
  | _ => none
where
  /-- The character of a hexadecimal code point of so many digits. -/
  ofCode (count : Nat) (cs : List Char) : Option (Char × List Char) := do
    let ds := cs.take count
    let n ← Text.readInBase? 16 ds
    if ds.length = count && n.isValidChar then some (Char.ofNat n, cs.drop count) else none

def readBasic? : Nat → List Char → Option (List Char × List Char)
  | 0, _ => none
  | fuel + 1, cs =>
    match cs with
    | '"' :: rest => some ([], rest)
    | '\\' :: rest => do
      let (c, rest) ← readEscape? rest
      let (more, rest) ← readBasic? fuel rest
      return (c :: more, rest)
    | c :: rest =>
      if isStringChar c then do
        let (more, rest) ← readBasic? fuel rest
        return (c :: more, rest)
      else none
    | [] => none

def readLiteral? (cs : List Char) : Option (List Char × List Char) :=
  let text := cs.takeWhile fun c => isStringChar c && c != '\''
  match cs.drop text.length with
  | '\'' :: rest => some (text, rest)
  | _ => none

def dropNewline? : List Char → Option (List Char)
  | '\n' :: cs => some cs
  | '\r' :: '\n' :: cs => some cs
  | _ => none

def skipBreaks : List Char → List Char
  | ' ' :: cs | '\t' :: cs | '\n' :: cs | '\r' :: '\n' :: cs => skipBreaks cs
  | cs => cs

/-- The rest after a backslash that ends a line: all blanks and line ends are skipped. -/
def dropContinuation? (cs : List Char) : Option (List Char) :=
  (dropNewline? (cs.dropWhile fun c => c == ' ' || c == '\t')).map skipBreaks

/-- Reads the rest of a string between triple quotes. Up to two quotes before the closing
ones belong to the string. -/
def readLines? (quote : Char) (escapes : Bool) : Nat → List Char → Option (List Char × List Char)
  | 0, _ => none
  | fuel + 1, cs =>
    let quotes := min 5 (cs.takeWhile (· == quote)).length
    if 3 ≤ quotes then some (List.replicate (quotes - 3) quote, cs.drop quotes)
    else
      match dropNewline? cs with
      | some rest => do
        let (more, rest) ← readLines? quote escapes fuel rest
        return ('\n' :: more, rest)
      | none =>
        match cs with
        | [] => none
        | c :: rest =>
          if c = '\\' && escapes then
            match dropContinuation? rest with
            | some rest => readLines? quote escapes fuel rest
            | none => do
              let (c, rest) ← readEscape? rest
              let (more, rest) ← readLines? quote escapes fuel rest
              return (c :: more, rest)
          else if isStringChar c then do
            let (more, rest) ← readLines? quote escapes fuel rest
            return (c :: more, rest)
          else none

def readString? (cs : List Char) : Option (List Char × List Char) :=
  match cs with
  | '"' :: '"' :: '"' :: rest =>
    readLines? '"' true (cs.length + 1) ((dropNewline? rest).getD rest)
  | '\'' :: '\'' :: '\'' :: rest =>
    readLines? '\'' false (cs.length + 1) ((dropNewline? rest).getD rest)
  | '"' :: rest => readBasic? (cs.length + 1) rest
  | '\'' :: rest => readLiteral? rest
  | _ => none

end Passage.Toml
