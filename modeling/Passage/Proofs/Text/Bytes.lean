import Mathlib.Tactic.SplitIfs
import Passage.Text.Utf8

/-! The bytes of a text and their order. Texts are ordered by their bytes as they are by their
characters (`bytes_lt_iff`). -/

namespace Passage.Text

def bytes (cs : List Char) : List UInt8 :=
  cs.flatMap String.utf8EncodeChar

theorem bytes_cons (c : Char) (cs : List Char) :
    bytes (c :: cs) = String.utf8EncodeChar c ++ bytes cs :=
  rfl

/-- The bytes of a lesser character are less, whatever follows them. -/
theorem utf8EncodeChar_append_lt {c d : Char} (h : c < d) (x y : List UInt8) :
    String.utf8EncodeChar c ++ x < String.utf8EncodeChar d ++ y := by
  have hlt : c.val.toNat < d.val.toNat := h
  have hbound : d.val.toNat < 0x110000 := by
    have := d.valid
    simp only [UInt32.isValidChar, Nat.isValidChar] at this
    omega
  have hdigits (n : Nat) : n / 4096 = n / 64 / 64 ∧ n / 262144 = n / 64 / 64 / 64 := by omega
  unfold String.utf8EncodeChar
  simp only [hdigits]
  -- fewer bytes go with a lesser first byte; as many bytes are compared digit by digit
  split_ifs <;>
    simp (disch := omega) only [List.cons_append, List.nil_append, List.cons_lt_cons_iff,
      UInt8.lt_iff_toNat_lt, ← UInt8.toNat_inj, UInt8.toNat_ofNat', Nat.mod_eq_of_lt] <;>
    omega

theorem bytes_lt_of_lt {cs ds : List Char} (h : cs < ds) : bytes cs < bytes ds := by
  induction h with
  | nil =>
    rw [bytes_cons]
    obtain ⟨b, rest, hb⟩ := List.exists_cons_of_ne_nil String.utf8EncodeChar_ne_nil
    rw [hb]
    exact List.Lex.nil
  | rel h => exact utf8EncodeChar_append_lt h _ _
  | cons _ ih => exact List.append_left_lt ih

/-- **The order of texts is that of their bytes.** -/
theorem bytes_lt_iff {cs ds : List Char} : bytes cs < bytes ds ↔ cs < ds := by
  refine ⟨fun h => ?_, bytes_lt_of_lt⟩
  by_cases hlt : cs < ds
  · exact hlt
  · rcases List.le_iff_lt_or_eq.mp (List.not_lt.mp hlt) with hgt | rfl
    · exact absurd (bytes_lt_of_lt hgt) (List.lt_asymm h)
    · exact absurd h (List.lt_irrefl _)

end Passage.Text
