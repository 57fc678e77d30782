import Passage.Text.Radix
import Passage.Text.Scientific

/-! How YAML writes a text. It stands as it is where that reads back as the same text; where
it would read as a null, a truth value or a number, or has characters with a meaning of
their own, it stands in single quotes; texts with line feeds are written as a block;
and what neither form can hold stands in double quotes with escapes. -/

namespace Passage.Yaml

/-! ## Texts that would read as something else -/

def isNull (cs : List Char) : Bool :=
  ["", "null", "Null", "NULL", "~"].contains (String.ofList cs)

def isTruth (cs : List Char) : Bool :=
  ["true", "True", "TRUE", "false", "False", "FALSE"].contains (String.ofList cs)

/-- Whether a text is made of digits of a class, and of at least one. -/
def isDigits (isDigit : Char → Bool) (cs : List Char) : Bool :=
  !cs.isEmpty && cs.all isDigit

def unsigned (cs : List Char) : List Char :=
  match cs with
  | '+' :: rest | '-' :: rest => rest
  | _ => cs

/-- Whether a text is an integer with a marked base, in the range of 128 bits. -/
def isMarkedInteger (cs : List Char) : Bool :=
  let limit := if cs.head? = some '-' then Nat.pow 2 127 else Nat.pow 2 128 - 1
  let isNumber (base : Nat) (ds : List Char) : Bool := (Text.readInBase? base ds).any (· ≤ limit)
  match unsigned cs with
  | '0' :: 'x' :: ds => isNumber 16 ds
  | '0' :: 'o' :: ds => isNumber 8 ds
  | '0' :: 'b' :: ds => isNumber 2 ds
  | _ => false

/-- Whether an exponent part reads as one; its value. -/
def exponent? (cs : List Char) : Option Int :=
  match cs with
  | [] => some 0
  | _ :: e =>
    if isDigits Char.isDigit (unsigned e) then
      let n : Int := Nat.ofDigitChars 10 (unsigned e) 0
      some (if e.head? = some '-' then -n else n)
    else none

/-- Whether a text is a decimal number, with or without fraction and exponent, in the range
of floats. -/
def isDecimal (cs : List Char) : Bool :=
  let cs := unsigned cs
  let isMark (c : Char) : Bool := c == 'e' || c == 'E'
  let number := cs.takeWhile (!isMark ·)
  let whole := number.takeWhile (· != '.')
  let fraction := (number.dropWhile (· != '.')).drop 1
  isDigits Char.isDigit (whole ++ fraction) &&
    match exponent? (cs.dropWhile (!isMark ·)) with
    | some e =>
      (Text.nearestFloat (Nat.ofDigitChars 10 (whole ++ fraction) 0) (e - fraction.length)).isFinite
    | none => false

/-- Whether a text is a float without digits. -/
def isSpecialFloat (cs : List Char) : Bool :=
  [".inf", ".Inf", ".INF", "+.inf", "+.Inf", "+.INF", "-.inf", "-.Inf", "-.INF",
    ".nan", ".NaN", ".NAN"].contains (String.ofList cs)

/-- Whether a text is digits after superfluous zeros, which some readers take for a number. -/
def isPaddedDigits (cs : List Char) : Bool :=
  match unsigned cs with
  | '0' :: d :: ds => (d :: ds).all Char.isDigit
  | _ => false

/-- Whether a text has to be quoted lest it reads as something else. -/
def isAmbiguous (cs : List Char) : Bool :=
  isNull cs || isTruth cs || isMarkedInteger cs || isDecimal cs || isSpecialFloat cs ||
    isPaddedDigits cs

/-! ## Characters with a meaning -/

def isBreak (c : Char) : Bool :=
  c == '\n' || c == '\r' || c == '\x85' || c == '\u2028' || c == '\u2029'

/-- What separates an indicator from text; a text ends with one too. -/
def isSeparator (c : Option Char) : Bool :=
  match c with
  | none => true
  | some c => c == ' ' || c == '\t' || c == '\x00' || isBreak c

/-- The characters that can be written without an escape. -/
def isPrintable (c : Char) : Bool :=
  c == '\n' || (' ' ≤ c && c ≤ '~') || ('\xa0' ≤ c && c != '\ufeff' && c != '\ufffe' && c != '\uffff')

/-- Whether a character opens something other than plain text when it comes first. -/
def isOpening (c : Char) (next : Option Char) : Bool :=
  "#,[]\x7b\x7d&*!|>'\"%@\x60".toList.contains c ||
    ((c == '?' || c == ':' || c == '-') && isSeparator next)

/-- Whether a text after its first character holds the start of a comment or the end of a
key. -/
def holdsIndicator : List Char → Bool
  | [] => false
  | c :: rest =>
    (match rest with
      | '#' :: _ => isSeparator (some c)
      | ':' :: more => isSeparator more.head?
      | _ => false) || holdsIndicator rest

/-- Whether a text has indicators that keep it from standing as it is. -/
def hasIndicators (cs : List Char) : Bool :=
  match cs with
  | [] => false
  | c :: rest =>
    cs.take 3 = ['-', '-', '-'] || cs.take 3 = ['.', '.', '.'] || isOpening c rest.head? ||
      holdsIndicator cs

/-- Whether a character of the first class is followed by one of the second. -/
def isFollowed (p q : Char → Bool) : List Char → Bool
  | c :: d :: rest => (p c && q d) || isFollowed p q (d :: rest)
  | _ => false

/-! ## The forms -/

inductive ScalarForm
  | plain
  | single
  | double
  | block
deriving DecidableEq, Repr

def formOf (cs : List Char) : ScalarForm :=
  let isSpace (c : Char) : Bool := c == ' '
  let edges (p : Char → Bool) : Bool := cs.head?.any p || cs.getLast?.any p
  let spaceBreak := isFollowed isSpace isBreak cs
  let breakSpace := isFollowed isBreak isSpace cs
  let special := !cs.all isPrintable || spaceBreak
  if cs.contains '\n' then
    if special || cs.getLast?.any isSpace then .double else .block
  else if special || breakSpace then .double
  else if isAmbiguous cs || edges isSpace || cs.any isBreak || hasIndicators cs then .single
  else .plain

/-- The indent that follows a line end, before anything but another line end. -/
def indented (indent : Nat) (atStart : Bool) : List Char → List Char
  | [] => []
  | c :: rest =>
    if isBreak c then c :: indented indent true rest
    else (if atStart then List.replicate indent ' ' else []) ++ c :: indented indent false rest

def single (indent : Nat) (cs : List Char) : List Char :=
  let inner := cs.flatMap fun c => if c = '\'' then ['\'', '\''] else [c]
  let close := if cs.getLast?.any isBreak then List.replicate indent ' ' else []
  '\'' :: indented indent false inner ++ close ++ ['\'']

def hex (width n : Nat) : List Char :=
  let digits := (Nat.toDigits 16 n).map Char.toUpper
  List.replicate (width - digits.length) '0' ++ digits

def escape (c : Char) : List Char :=
  if isPrintable c && !isBreak c && c != '"' && c != '\\' then [c]
  else
    '\\' :: match c with
    | '\x00' => ['0']
    | '\x07' => ['a']
    | '\x08' => ['b']
    | '\t' => ['t']
    | '\n' => ['n']
    | '\x0b' => ['v']
    | '\x0c' => ['f']
    | '\r' => ['r']
    | '\x1b' => ['e']
    | '"' => ['"']
    | '\\' => ['\\']
    | '\x85' => ['N']
    | '\u2028' => ['L']
    | '\u2029' => ['P']
    | _ =>
      if c.toNat ≤ 0xFF then 'x' :: hex 2 c.toNat
      else if c.toNat ≤ 0xFFFF then 'u' :: hex 4 c.toNat
      else 'U' :: hex 8 c.toNat

/-- The header of a block: the indent where the text starts with white space, and what
becomes of line ends at its end: one is kept, `-` is none, `+` is all. -/
def blockHeader (cs : List Char) : List Char :=
  let hint := if cs.head?.any fun c => c == ' ' || isBreak c then ['2'] else []
  let chomp :=
    match cs.reverse with
    | c :: rest =>
      if !isBreak c then ['-'] else if rest.isEmpty || rest.head?.any isBreak then ['+'] else []
    | [] => ['-']
  '|' :: hint ++ chomp

def scalar (indent : Nat) (cs : List Char) : List Char :=
  match formOf cs with
  | .plain => cs ++ ['\n']
  | .single => single indent cs ++ ['\n']
  | .double => '"' :: cs.flatMap escape ++ ['"', '\n']
  | .block =>
    blockHeader cs ++ '\n' :: indented indent true cs ++
      if cs.getLast?.any isBreak then [] else ['\n']

end Passage.Yaml
