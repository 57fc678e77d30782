import Passage.Verse.Set

/-! The verse numbers that a rendered passage must expose, given by no, one or two
bounds. A marker is admitted if both its ends are expected. -/

namespace Passage

inductive ExpectedVerses
  | unconstrained
  | single (n : Nat)
  | range (first last : Nat) (ordered : first ≤ last)

inductive BoundsError
  | tooMany (count : Nat)
  | inverted (first last : Nat)
deriving DecidableEq

def BoundsError.message : BoundsError → String
  | tooMany count => s!"expected verse range takes at most 2 values, got {count}"
  | inverted first last => s!"expected verse range is inverted: {first} > {last}"

namespace ExpectedVerses

instance : DecidableEq ExpectedVerses
  | unconstrained, unconstrained => isTrue rfl
  | single m, single n => decidable_of_iff (m = n) (by simp)
  | range a b _, range c d _ => decidable_of_iff (a = c ∧ b = d) (by simp)
  | unconstrained, single _ | unconstrained, range .. | single _, unconstrained
  | single _, range .. | range .., unconstrained | range .., single _ =>
    isFalse ExpectedVerses.noConfusion

def ofBounds : List Nat → Except BoundsError ExpectedVerses
  | [] => .ok unconstrained
  | [n] => .ok (single n)
  | [first, last] =>
    if h : first ≤ last then .ok (range first last h) else .error (.inverted first last)
  | bounds => .error (.tooMany bounds.length)

/-- The least and the greatest expected number, where there are any. -/
def bounds? : ExpectedVerses → Option (Nat × Nat)
  | unconstrained => none
  | single n => some (n, n)
  | range first last _ => some (first, last)

/-- Whether both ends of a marker are expected. -/
def admits (e : ExpectedVerses) (m : VerseMarker) : Bool :=
  match e.bounds? with
  | none => true
  | some (lo, hi) => lo ≤ m.first && m.first ≤ hi && lo ≤ m.last && m.last ≤ hi

/-- The expected numbers that a set lacks, ascending. -/
def missing (e : ExpectedVerses) (found : VerseSet) : List Nat :=
  match e.bounds? with
  | none => []
  | some (lo, hi) => (List.range' lo (hi + 1 - lo)).filter fun n => !found.contains n

theorem mem_missing {e : ExpectedVerses} {found : VerseSet} {n : Nat} :
    n ∈ e.missing found ↔ (∃ lo hi, e.bounds? = some (lo, hi) ∧ lo ≤ n ∧ n ≤ hi) ∧ n ∉ found := by
  unfold missing
  split
  · rename_i h
    simp [h]
  · rename_i lo hi h
    have hn : (!found.contains n) = true ↔ n ∉ found := by
      rw [← VerseSet.contains_iff]
      simp
    simp only [List.mem_filter, List.mem_range'_1, hn, h, Option.some.injEq, Prod.mk.injEq]
    constructor
    · rintro ⟨⟨h1, h2⟩, h3⟩
      exact ⟨⟨lo, hi, ⟨rfl, rfl⟩, h1, by omega⟩, h3⟩
    · rintro ⟨⟨_, _, ⟨rfl, rfl⟩, h1, h2⟩, h3⟩
      exact ⟨⟨h1, by omega⟩, h3⟩

end ExpectedVerses

end Passage
