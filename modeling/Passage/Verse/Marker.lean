import Passage.Text.Decimal
import Passage.Styled.Text

/-! Verse markers: one number, or an ascending range written with a hyphen. Numbers are
ASCII decimals below `bound`, with white space allowed around each. A marker
reads back from its own label. -/

namespace Passage

/-- The verse numbers from `first` to `last`. -/
structure VerseMarker where
  first : Nat
  last : Nat
  ordered : first ≤ last
deriving DecidableEq

inductive VerseError
  | empty
  | invalidNumber (part : List Char)
  | descending (first last : Nat)
deriving DecidableEq

def VerseError.message : VerseError → String
  | empty => "verse number is empty"
  | invalidNumber part => "invalid verse number '" ++ String.ofList part ++ "'"
  | descending first last => s!"verse range {first}-{last} ends before it starts"

namespace VerseMarker

/-- Verse numbers have 32 bits. -/
def bound : Nat := Nat.pow 2 32

def single (n : Nat) : VerseMarker :=
  ⟨n, n, Nat.le_refl n⟩

def range (first last : Nat) : Except VerseError VerseMarker :=
  if h : first ≤ last then .ok ⟨first, last, h⟩ else .error (.descending first last)

def readNumber (cs : List Char) : Except VerseError Nat :=
  match Text.readDecimal? bound (Text.trim cs) with
  | some n => .ok n
  | none => .error (.invalidNumber (Text.trim cs))

/-- Reads a number, or two around the first hyphen. -/
def parse (cs : List Char) : Except VerseError VerseMarker :=
  let cs := Text.trim cs
  if cs.isEmpty then .error .empty
  else
    match cs.dropWhile (· != '-') with
    | [] => (readNumber cs).map single
    | _ :: after => do
      let first ← readNumber (cs.takeWhile (· != '-'))
      let last ← readNumber after
      range first last

/-- Whether a marker covers more than one number. -/
def isRange (m : VerseMarker) : Bool :=
  m.first < m.last

def count (m : VerseMarker) : Nat :=
  m.last + 1 - m.first

def label (m : VerseMarker) : List Char :=
  if m.isRange then Text.decimal m.first ++ '-' :: Text.decimal m.last
  else Text.decimal m.first

/-- The tap target of a marker carries its label. -/
def region (m : VerseMarker) : Region :=
  ⟨.verse, String.ofList m.label⟩

/-- The label in bold, then a space; with `tappable` the label is a tap target. -/
def render (m : VerseMarker) (tappable : Bool) : StyledText :=
  let styles := if tappable then [.bold, .clickable m.region] else [.bold]
  StyledText.styled m.label (.ofList styles) ++ StyledText.plain [' ']

def meets (m n : VerseMarker) : Bool :=
  m.first ≤ n.last && n.first ≤ m.last

instance : Membership Nat VerseMarker where
  mem m n := m.first ≤ n ∧ n ≤ m.last

theorem mem_iff {m : VerseMarker} {n : Nat} : n ∈ m ↔ m.first ≤ n ∧ n ≤ m.last :=
  Iff.rfl

theorem meets_iff {m n : VerseMarker} : m.meets n = true ↔ ∃ k, k ∈ m ∧ k ∈ n := by
  have hm := m.ordered
  have hn := n.ordered
  simp only [meets, Bool.and_eq_true, decide_eq_true_eq, mem_iff]
  constructor
  · rintro ⟨h, k⟩
    by_cases hle : m.first ≤ n.first
    · exact ⟨n.first, ⟨hle, k⟩, Nat.le_refl _, hn⟩
    · exact ⟨m.first, ⟨Nat.le_refl _, hm⟩, by omega, h⟩
  · rintro ⟨k, ⟨h1, h2⟩, h3, h4⟩
    omega

end VerseMarker

end Passage
