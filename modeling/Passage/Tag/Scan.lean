import Passage.Tag.Pattern

/-! The scan for a pattern: from the start of the text, and then from the end of each
match, the next match is the one that starts first. Positions count characters. -/

namespace Passage.Tag

/-- One match in a text: where it starts, how long it is, and its captured parts, placed
from the start of the match. -/
structure Match where
  start : Nat
  extent : Extent
deriving DecidableEq, Repr

namespace Match

def span (m : Match) : Span :=
  ⟨m.start, m.start + m.extent.length⟩

def group? (m : Match) (i : Nat) : Option Span :=
  (m.extent.groups[i]?).map (shift m.start)

end Match

/-- The matches in what follows the first `offset` characters of a text, of which the
next `skip` belong to the match before. -/
def Pattern.matchesFrom (p : Pattern) (offset skip : Nat) : List Char → List Match
  | [] => []
  | c :: cs =>
    match skip with
    | skip + 1 => p.matchesFrom (offset + 1) skip cs
    | 0 =>
      match p.match? (offset == 0) (c :: cs) with
      | some e => ⟨offset, e⟩ :: p.matchesFrom (offset + 1) (e.length - 1) cs
      | none => p.matchesFrom (offset + 1) 0 cs

/-- Skipping is going on further to the right. -/
theorem Pattern.matchesFrom_skip (p : Pattern) (offset skip : Nat) (cs : List Char) :
    p.matchesFrom offset skip cs = p.matchesFrom (offset + skip) 0 (cs.drop skip) := by
  induction cs generalizing offset skip with
  | nil => simp [matchesFrom]
  | cons c cs ih =>
    cases skip with
    | zero => rfl
    | succ skip =>
      rw [matchesFrom, ih, List.drop_succ_cons, Nat.add_assoc, Nat.add_comm 1]

/-- All matches in a text, left to right, none overlapping another. -/
def Pattern.matches (p : Pattern) (cs : List Char) : List Match :=
  p.matchesFrom 0 0 cs

def Pattern.find? (p : Pattern) (cs : List Char) : Option Match :=
  (p.matches cs).head?

end Passage.Tag
