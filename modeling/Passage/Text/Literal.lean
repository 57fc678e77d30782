/-! Literals in texts: a text may start with one, and may hold one further on. -/

namespace Passage.Text

/-- The text after a literal, where it starts with it. -/
def dropLiteral? : List Char → List Char → Option (List Char)
  | [], cs => some cs
  | _ :: _, [] => none
  | l :: ls, c :: cs => if l = c then dropLiteral? ls cs else none

/-- The text before the first occurrence of a literal, where there is one. -/
def beforeLiteral? (literal : List Char) : List Char → Option (List Char)
  | [] => if literal.isEmpty then some [] else none
  | c :: cs =>
    if (dropLiteral? literal (c :: cs)).isSome then some []
    else (beforeLiteral? literal cs).map (c :: ·)

theorem dropLiteral?_eq_some_iff {l cs rest : List Char} :
    dropLiteral? l cs = some rest ↔ cs = l ++ rest := by
  induction l generalizing cs with
  | nil => simp [dropLiteral?]
  | cons c l ih =>
    cases cs with
    | nil => simp [dropLiteral?]
    | cons d cs =>
      rw [dropLiteral?]
      split
      · rename_i h
        rw [ih]
        simp [h]
      · rename_i h
        simp [Ne.symm h]

/-- The literal stands right after what is before it. -/
theorem beforeLiteral?_eq_some {l cs before : List Char}
    (h : beforeLiteral? l cs = some before) : ∃ rest, cs = before ++ l ++ rest := by
  induction cs generalizing before with
  | nil =>
    simp only [beforeLiteral?, List.isEmpty_iff] at h
    split at h
    · rename_i hl
      cases h
      exact ⟨[], by simp [hl]⟩
    · cases h
  | cons c cs ih =>
    rw [beforeLiteral?] at h
    split at h
    · rename_i hs
      cases h
      obtain ⟨rest, hr⟩ := Option.isSome_iff_exists.mp hs
      exact ⟨rest, dropLiteral?_eq_some_iff.mp hr⟩
    · obtain ⟨b, hb, rfl⟩ := Option.map_eq_some_iff.mp h
      obtain ⟨rest, rfl⟩ := ih hb
      exact ⟨rest, by simp⟩

def startsWith (l cs : List Char) : Bool :=
  (dropLiteral? l cs).isSome

def holds (l cs : List Char) : Bool :=
  (beforeLiteral? l cs).isSome

end Passage.Text
