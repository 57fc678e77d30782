import Passage.Verse.Marker
import Passage.Toml.Number

/-! Values of settings. A setting takes any scalar that stands for its type: switches
take numbers, which are on unless zero, and words; verse numbers take switches, rounded
floats and decimal strings. -/

namespace Passage.Convert

/-- The switch that a word names, in any case. -/
def ofWord? (cs : List Char) : Option Bool :=
  match String.ofList (cs.map Char.toLower) with
  | "true" | "on" | "yes" => some true
  | "false" | "off" | "no" => some false
  | _ => none

def toBool? : Toml → Option Bool
  | .boolean b => some b
  | .integer n => some (n != 0)
  | .float x => some (x != 0.0)
  | .string cs | .moment cs =>
    if cs = ['1'] then some true else if cs = ['0'] then some false else ofWord? cs
  | _ => none

def fitting (n : Nat) : Option Nat :=
  if n < VerseMarker.bound then some n else none

/-- The value as a verse number. A float is rounded, a half away from zero, and a negative
one counts as zero. -/
def toNumber? : Toml → Option Nat
  | .boolean b => some b.toNat
  | .integer n => if 0 ≤ n then fitting n.toNat else none
  | .float x => fitting x.round.toUInt64.toNat
  | .string cs | .moment cs =>
    match ofWord? cs with
    | some b => some b.toNat
    | none => Text.readNumeral? VerseMarker.bound cs
  | _ => none

def toNumbers? : Toml → Option (List Nat)
  | .array items => items.mapM toNumber?
  | _ => none

end Passage.Convert
