/-! Numbers in ASCII decimals. Writing gives the shortest digit string; reading takes
any non-empty digit string below a bound, leading zeros allowed, so what was written
reads back. A numeral may have a plus sign besides. -/

namespace Passage.Text

/-- The digits of a number, most significant first. -/
def decimal (n : Nat) : List Char :=
  Nat.toDigits 10 n

/-- The number a digit string stands for: refused when empty, when a character is no
ASCII digit, and when the number is not below the bound. -/
def readDecimal? (bound : Nat) (cs : List Char) : Option Nat :=
  if cs.isEmpty || !cs.all Char.isDigit then none
  else if Nat.ofDigitChars 10 cs 0 < bound then some (Nat.ofDigitChars 10 cs 0)
  else none

/-- A digit string with or without one plus sign before it. -/
def readNumeral? (bound : Nat) : List Char → Option Nat
  | '+' :: cs => readDecimal? bound cs
  | cs => readDecimal? bound cs

theorem readDecimal?_eq_some_iff {bound n : Nat} {cs : List Char} :
    readDecimal? bound cs = some n ↔
      cs ≠ [] ∧ (∀ c ∈ cs, c.isDigit = true) ∧ Nat.ofDigitChars 10 cs 0 = n ∧ n < bound := by
  unfold readDecimal?
  split
  · rename_i h
    simp only [Bool.or_eq_true, List.isEmpty_iff, Bool.not_eq_true', List.all_eq_false] at h
    constructor
    · simp
    · rintro ⟨hne, hall, -, -⟩
      rcases h with h | ⟨c, hc, hn⟩
      · exact absurd h hne
      · exact absurd (hall c hc) hn
  · rename_i h
    simp only [Bool.or_eq_true, not_or, List.isEmpty_iff, Bool.not_eq_true', Bool.not_eq_false,
      List.all_eq_true] at h
    split
    · rename_i hb
      simp only [Option.some.injEq]
      exact ⟨fun e => ⟨h.1, h.2, e, e ▸ hb⟩, fun e => e.2.2.1⟩
    · rename_i hb
      simp only [reduceCtorEq, false_iff]
      rintro ⟨-, -, rfl, hn⟩
      exact hb hn

theorem isDigit_of_mem_decimal {n : Nat} {c : Char} (h : c ∈ decimal n) :
    c.isDigit = true :=
  Nat.isDigit_of_mem_toDigits (by decide) (by decide) h

theorem readDecimal?_decimal {bound n : Nat} (h : n < bound) :
    readDecimal? bound (decimal n) = some n :=
  readDecimal?_eq_some_iff.2
    ⟨Nat.toDigits_ne_nil, fun _ hc => isDigit_of_mem_decimal hc,
      Nat.ofDigitChars_ten_toDigits, h⟩

end Passage.Text
