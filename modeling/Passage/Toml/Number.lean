import Passage.Text.Radix
import Passage.Text.Scientific
import Passage.Toml.Value

/-! TOML's values that are written without quotes or brackets: booleans, integers, floats,
dates and times. Each is one unbroken token, read as a whole. -/

namespace Passage.Toml

def isTokenChar (c : Char) : Bool :=
  c.isAlphanum || c == '_' || c == '+' || c == '-' || c == '.' || c == ':'

def splitSign : List Char → Bool × List Char
  | '-' :: cs => (true, cs)
  | '+' :: cs => (false, cs)
  | cs => (false, cs)

/-- The digits of a number, in which single underscores stand between digits. -/
def digitsOf? (isDigit : Char → Bool) (cs : List Char) : Option (List Char) :=
  let groups := cs.splitOn '_'
  if groups.all fun g => !g.isEmpty && g.all isDigit then some groups.flatten else none

def inBase? (base : Nat) (cs : List Char) : Option Nat := do
  let ds ← digitsOf? (fun c => (Text.digitValue? base c).isSome) cs
  Text.readInBase? base ds

/-- Decimal digits without a superfluous leading zero. -/
def plainDigits? (cs : List Char) : Option (List Char) := do
  let ds ← digitsOf? Char.isDigit cs
  if ds.head? = some '0' && ds.length ≠ 1 then none else some ds

/-- An integer of 64 bits. -/
def fits (n : Int) : Option Int :=
  if -Int.pow 2 63 ≤ n ∧ n < Int.pow 2 63 then some n else none

def readInteger? (cs : List Char) : Option Int :=
  match cs with
  | '0' :: 'x' :: ds => do fits (← inBase? 16 ds)
  | '0' :: 'o' :: ds => do fits (← inBase? 8 ds)
  | '0' :: 'b' :: ds => do fits (← inBase? 2 ds)
  | _ => do
    let (negative, ds) := splitSign cs
    let n : Int := Nat.ofDigitChars 10 (← plainDigits? ds) 0
    fits (if negative then -n else n)

/-- Reads a float: digits with a fraction, an exponent, or both. Only a negative one may be
out of range. -/
def readFloat? (cs : List Char) : Option Float := do
  let (negative, cs) := splitSign cs
  let sign (x : Float) : Float := if negative then -x else x
  if cs = "inf".toList then return sign (1.0 / 0.0)
  if cs = "nan".toList then return sign (0.0 / 0.0)
  let isMark (c : Char) : Bool := c == 'e' || c == 'E'
  let number := cs.takeWhile (!isMark ·)
  let whole ← plainDigits? (number.takeWhile (· != '.'))
  let fraction ← match number.dropWhile (· != '.') with
    | [] => some []
    | _ :: ds => digitsOf? Char.isDigit ds
  let exponent : Int ← match cs.dropWhile (!isMark ·) with
    | [] => if number.contains '.' then some 0 else none
    | _ :: e => do
      let (down, ds) := splitSign e
      let n : Int := Nat.ofDigitChars 10 (← digitsOf? Char.isDigit ds) 0
      some (if down then -n else n)
  let x := Text.nearestFloat (Nat.ofDigitChars 10 (whole ++ fraction) 0) (exponent - fraction.length)
  if x == 1.0 / 0.0 && !negative then none else some (sign x)

/-! ## Dates and times -/

def fixedDigits? (count : Nat) (cs : List Char) : Option Nat :=
  if cs.length = count then Text.readDecimal? (Nat.pow 10 count) cs else none

def daysIn (year month : Nat) : Nat :=
  if month = 2 then
    if year % 4 = 0 && (year % 100 ≠ 0 || year % 400 = 0) then 29 else 28
  else if month = 4 || month = 6 || month = 9 || month = 11 then 30
  else 31

/-- Whether a text is a date such as `1979-05-27`. -/
def isDate (cs : List Char) : Bool :=
  match cs.splitOn '-' with
  | [y, m, d] =>
    match fixedDigits? 4 y, fixedDigits? 2 m, fixedDigits? 2 d with
    | some y, some m, some d => 1 ≤ m && m ≤ 12 && 1 ≤ d && d ≤ daysIn y m
    | _, _, _ => false
  | _ => false

/-- Whether a text is a number of two digits up to a limit. -/
def isTwoDigits (limit : Nat) (cs : List Char) : Bool :=
  (fixedDigits? 2 cs).any (· ≤ limit)

/-- Whether a text is a time such as `07:32:00.5`. -/
def isTime (cs : List Char) : Bool :=
  match cs.splitOn ':' with
  | [h, m, s] =>
    isTwoDigits 23 h && isTwoDigits 59 m && isTwoDigits 60 (s.takeWhile (· != '.')) &&
      match s.dropWhile (· != '.') with
      | [] => true
      | _ :: fraction => !fraction.isEmpty && fraction.all Char.isDigit
  | _ => false

/-- Whether a text is the distance of a time zone, such as `-07:00`. -/
def isOffset (cs : List Char) : Bool :=
  match cs with
  | ['Z'] | ['z'] => true
  | sign :: rest =>
    (sign == '+' || sign == '-') &&
      match rest.splitOn ':' with
      | [h, m] => isTwoDigits 23 h && isTwoDigits 59 m
      | _ => false
  | [] => false

/-- Whether a text is a date, a time, or both with or without a time zone. -/
def isMoment (cs : List Char) : Bool :=
  let date := cs.take 10
  match cs.drop 10 with
  | sep :: rest =>
    if isDate date && (sep == 'T' || sep == 't' || sep == ' ') then
      let isZone (c : Char) : Bool := c == 'Z' || c == 'z' || c == '+' || c == '-'
      let zone := rest.dropWhile (!isZone ·)
      isTime (rest.takeWhile (!isZone ·)) && (zone.isEmpty || isOffset zone)
    else isTime cs
  | [] => isDate cs || isTime cs

def readToken? (cs : List Char) : Option Toml :=
  if cs = "true".toList then some (boolean true)
  else if cs = "false".toList then some (boolean false)
  else
    match readInteger? cs with
    | some n => some (integer n)
    | none =>
      match readFloat? cs with
      | some x => some (float x)
      | none => if isMoment cs then some (moment cs) else none

/-- The token at the start of a text, and the rest. A date may be followed by a space and a
time. -/
def splitToken (cs : List Char) : List Char × List Char :=
  let token := cs.takeWhile isTokenChar
  match cs.dropWhile isTokenChar with
  | ' ' :: d :: rest =>
    if isDate token && d.isDigit then
      (token ++ ' ' :: (d :: rest).takeWhile isTokenChar, (d :: rest).dropWhile isTokenChar)
    else (token, ' ' :: d :: rest)
  | rest => (token, rest)

end Passage.Toml
