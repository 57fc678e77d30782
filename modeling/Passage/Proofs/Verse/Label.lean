import Mathlib.Data.List.TakeWhile
import Passage.Verse.Expected

/-! Labels of verse markers. A label is made of digits and at most one hyphen, and it reads back
as its marker when the marker's numbers have 32 bits; so such markers are told apart by their
tap targets. All markers that are read have 32 bits, and so have the expected ones if the bounds
do (`Fits`). -/

namespace Passage

namespace VerseMarker

def isLabelChar (c : Char) : Bool :=
  c.isDigit || c == '-'

/-- The marker's numbers have 32 bits. -/
def Fits (m : VerseMarker) : Prop :=
  m.last < bound

theorem isLabelChar_of_mem_label {m : VerseMarker} {c : Char} (h : c ∈ m.label) :
    isLabelChar c = true := by
  have digit {n : Nat} (hc : c ∈ Text.decimal n) : isLabelChar c = true := by
    simp [isLabelChar, Text.isDigit_of_mem_decimal hc]
  unfold label at h
  split at h
  · rcases List.mem_append.mp h with h | h
    · exact digit h
    · rcases List.mem_cons.mp h with rfl | h
      · rfl
      · exact digit h
  · exact digit h

theorem decimal_ne_nil (n : Nat) : Text.decimal n ≠ [] :=
  Nat.toDigits_ne_nil

theorem label_ne_nil (m : VerseMarker) : m.label ≠ [] := by
  unfold label
  split
  · simp
  · exact decimal_ne_nil _

theorem toNat_of_isLabelChar {c : Char} (h : isLabelChar c = true) :
    c = '-' ∨ 48 ≤ c.toNat ∧ c.toNat ≤ 57 := by
  simp only [isLabelChar, Bool.or_eq_true, beq_iff_eq] at h
  rcases h with h | h
  · exact .inr (Char.isDigit_iff_toNat.mp h)
  · exact .inl h

theorem toNat_lt_of_isLabelChar {c : Char} (h : isLabelChar c = true) : c.toNat < 0x61 := by
  rcases toNat_of_isLabelChar h with rfl | hl
  · decide
  · omega

theorem isWhite_of_isLabelChar {c : Char} (h : isLabelChar c = true) :
    Text.isWhite c = false := by
  rw [Bool.eq_false_iff]
  intro hw
  have hc := Text.toNat_of_isWhite hw
  rcases toNat_of_isLabelChar h with rfl | hl
  · exact absurd hw (by decide)
  · omega

theorem trim_of_isLabelChar {cs : List Char} (h : ∀ c ∈ cs, isLabelChar c = true) :
    Text.trim cs = cs := by
  have keep {ds : List Char} (hd : ∀ c ∈ ds, isLabelChar c = true) :
      ds.dropWhile Text.isWhite = ds := by
    rw [List.dropWhile_eq_self_iff]
    intro hl
    simp [isWhite_of_isLabelChar (hd _ (List.getElem_mem hl))]
  rw [Text.trim, Text.trimBoth, keep h, keep (fun c hc => h c (List.mem_reverse.mp hc)),
    List.reverse_reverse]

theorem readNumber_decimal {n : Nat} (h : n < bound) : readNumber (Text.decimal n) = .ok n := by
  have hl : ∀ c ∈ Text.decimal n, isLabelChar c = true := by
    intro c hc
    simp [isLabelChar, Text.isDigit_of_mem_decimal hc]
  simp only [readNumber, trim_of_isLabelChar hl, Text.readDecimal?_decimal h]

private theorem ne_hyphen_of_mem_decimal {n : Nat} {c : Char} (h : c ∈ Text.decimal n) :
    (c != '-') = true := by
  have := Text.isDigit_of_mem_decimal h
  rw [bne_iff_ne]
  rintro rfl
  exact absurd this (by decide)

/-- A label reads back as its marker. -/
theorem parse_label {m : VerseMarker} (h : m.Fits) : parse m.label = .ok m := by
  have hfirst : m.first < bound := Nat.lt_of_le_of_lt m.ordered h
  have htrim : Text.trim m.label = m.label :=
    trim_of_isLabelChar fun _ hc => isLabelChar_of_mem_label hc
  have hne : m.label.isEmpty = false := by simp [m.label_ne_nil]
  have hpos : ∀ c ∈ Text.decimal m.first, (c != '-') = true :=
    fun c hc => ne_hyphen_of_mem_decimal hc
  rw [parse]
  simp only [htrim, hne, Bool.false_eq_true, if_false]
  by_cases hr : m.isRange = true
  · have hlabel : m.label = Text.decimal m.first ++ '-' :: Text.decimal m.last := if_pos hr
    rw [hlabel, List.dropWhile_append_of_pos hpos, List.takeWhile_append_of_pos hpos]
    simp [readNumber_decimal hfirst, readNumber_decimal h, range, m.ordered, bind, Except.bind]
  · have hlabel : m.label = Text.decimal m.first := if_neg hr
    have hlast : m.last = m.first := by
      have := m.ordered
      simp only [isRange, decide_eq_true_eq] at hr
      omega
    rw [hlabel, List.dropWhile_eq_nil_iff.mpr hpos]
    simp only [readNumber_decimal hfirst, Except.map, single]
    cases m
    simp_all

theorem readNumber_lt {cs : List Char} {n : Nat} (h : readNumber cs = .ok n) : n < bound := by
  unfold readNumber at h
  split at h
  · rename_i k hk
    cases h
    exact (Text.readDecimal?_eq_some_iff.mp hk).2.2.2
  · cases h

/-- Markers that are read have 32 bits. -/
theorem fits_of_parse {cs : List Char} {m : VerseMarker} (h : parse cs = .ok m) : m.Fits := by
  rw [parse] at h
  split at h
  · cases h
  · split at h
    · cases hn : readNumber (Text.trim cs) with
      | error e => simp [hn, Except.map] at h
      | ok n =>
        simp only [hn, Except.map, Except.ok.injEq] at h
        subst h
        exact readNumber_lt hn
    · rename_i after _
      cases hf : readNumber ((Text.trim cs).takeWhile (· != '-')) with
      | error e => simp [hf, bind, Except.bind] at h
      | ok first =>
        cases hl : readNumber after with
        | error e => simp [hf, hl, bind, Except.bind] at h
        | ok last =>
          simp only [hf, hl, bind, Except.bind, range] at h
          split at h
          · cases h
            exact readNumber_lt hl
          · cases h

/-- Markers with one tap target are one marker. -/
theorem eq_of_region_eq {m n : VerseMarker} (hm : m.Fits) (hn : n.Fits)
    (h : m.region = n.region) : m = n := by
  have hl : m.label = n.label := String.ofList_injective (congrArg Region.payload h)
  have hp := parse_label hm
  rw [hl, parse_label hn] at hp
  exact (Except.ok.inj hp).symm

end VerseMarker

/-- The bounds have 32 bits, as verse numbers do. -/
def ExpectedVerses.Fits (e : ExpectedVerses) : Prop :=
  ∀ lo hi, e.bounds? = some (lo, hi) → hi < VerseMarker.bound

end Passage
