import Mathlib.Algebra.Group.Nat.Defs
import Passage.Proofs.Text.Trim
import Passage.Proofs.Verse.Label

/-! The written forms of verse markers. A number is written in ASCII digits with white space around
them, a marker as one number or as two around a hyphen. The reader takes exactly these forms, and
of all other texts it says what is wrong with them first (`parse_spellings`). -/

namespace Passage.VerseMarker

/-- A number is written: its digits, which may start with zeros, between two stretches of white
space. -/
def Written (n : Nat) (cs : List Char) : Prop :=
  ∃ before digits after, cs = before ++ (digits ++ after) ∧
    (∀ c ∈ before, Text.isWhite c = true) ∧ (∀ c ∈ after, Text.isWhite c = true) ∧
    digits ≠ [] ∧ (∀ c ∈ digits, c.isDigit = true) ∧
    Nat.ofDigitChars 10 digits 0 = n ∧ n ≤ 2 ^ 32 - 1

/-- A marker is written: one number, or its ends with a hyphen between them. -/
inductive Spelled : VerseMarker → List Char → Prop
  | single {n : Nat} {cs : List Char} : Written n cs → Spelled (single n) cs
  | range {m : VerseMarker} {before after : List Char} :
      Written m.first before → Written m.last after → Spelled m (before ++ '-' :: after)

/-- The first part of a text that is no number, without the white space at its ends. A text has two
parts if it has a hyphen: they end and start at the first one. -/
inductive Faulty : List Char → List Char → Prop
  | whole {cs : List Char} : '-' ∉ cs → (∀ n, ¬ Written n cs) → Faulty cs (Text.trim cs)
  | first {before after : List Char} : '-' ∉ before → (∀ n, ¬ Written n before) →
      Faulty (before ++ '-' :: after) (Text.trim before)
  | last {before after : List Char} {n : Nat} : '-' ∉ before → Written n before →
      (∀ n, ¬ Written n after) → Faulty (before ++ '-' :: after) (Text.trim after)

/-! ## Numbers -/

theorem lt_bound_iff {n : Nat} : n < bound ↔ n ≤ 2 ^ 32 - 1 := by
  have hbound : bound = 2 ^ 32 := rfl
  omega

theorem isWhite_of_isDigit {c : Char} (h : c.isDigit = true) : Text.isWhite c = false :=
  isWhite_of_isLabelChar (by simp [isLabelChar, h])

theorem trim_of_written {before digits after : List Char}
    (hbefore : ∀ c ∈ before, Text.isWhite c = true) (hafter : ∀ c ∈ after, Text.isWhite c = true)
    (hdigits : ∀ c ∈ digits, c.isDigit = true) :
    Text.trim (before ++ (digits ++ after)) = digits := by
  rw [Text.trim, Text.trimBoth_append_left hbefore, Text.trimBoth_append_right hafter]
  exact trim_of_isLabelChar fun c hc => by simp [isLabelChar, hdigits c hc]

theorem readDecimal?_trim_eq_some_iff {n : Nat} {cs : List Char} :
    Text.readDecimal? bound (Text.trim cs) = some n ↔ Written n cs := by
  rw [Text.readDecimal?_eq_some_iff, lt_bound_iff]
  constructor
  · rintro ⟨hne, hdigits, hvalue, hle⟩
    obtain ⟨before, after, hcs, hbefore, hafter⟩ := Text.exists_trimBoth Text.isWhite cs
    exact ⟨before, Text.trim cs, after, hcs, hbefore, hafter, hne, hdigits, hvalue, hle⟩
  · rintro ⟨before, digits, after, rfl, hbefore, hafter, hne, hdigits, hvalue, hle⟩
    rw [trim_of_written hbefore hafter hdigits]
    exact ⟨hne, hdigits, hvalue, hle⟩

theorem readNumber_eq_ok_iff {n : Nat} {cs : List Char} :
    readNumber cs = .ok n ↔ Written n cs := by
  rw [← readDecimal?_trim_eq_some_iff, readNumber]
  split <;> simp_all

theorem readNumber_eq_error_iff {e : VerseError} {cs : List Char} :
    readNumber cs = .error e ↔ (∀ n, ¬ Written n cs) ∧ e = .invalidNumber (Text.trim cs) := by
  cases h : readNumber cs with
  | ok n =>
    have hn := readNumber_eq_ok_iff.mp h
    exact ⟨nofun, fun he => absurd hn (he.1 n)⟩
  | error e' =>
    have hnone : ∀ n, ¬ Written n cs := by
      intro n hn
      rw [readNumber_eq_ok_iff.mpr hn] at h
      cases h
    have he' : e' = .invalidNumber (Text.trim cs) := by
      rw [readNumber] at h
      split at h
      · cases h
      · exact (Except.error.inj h).symm
    rw [he']
    exact ⟨fun he => ⟨hnone, (Except.error.inj he).symm⟩, fun he => congrArg _ he.2.symm⟩

/-- White space at either end of a number does not count. -/
theorem readNumber_congr {xs ys : List Char} (h : Text.trim xs = Text.trim ys) :
    readNumber xs = readNumber ys := by
  rw [readNumber, readNumber, h]

theorem hyphen_notMem_of_written {n : Nat} {cs : List Char} (h : Written n cs) : '-' ∉ cs := by
  obtain ⟨before, digits, after, rfl, hbefore, hafter, -, hdigits, -⟩ := h
  have hwhite : Text.isWhite '-' = false := by decide
  simp only [List.mem_append, not_or]
  refine ⟨fun hc => ?_, fun hc => ?_, fun hc => ?_⟩
  · exact absurd (hbefore _ hc) (by simp [hwhite])
  · exact absurd (hdigits _ hc) (by decide)
  · exact absurd (hafter _ hc) (by simp [hwhite])

theorem exists_of_written {n : Nat} {cs : List Char} (h : Written n cs) :
    ∃ c ∈ cs, Text.isWhite c = false := by
  obtain ⟨before, digits, after, rfl, -, -, hne, hdigits, -⟩ := h
  obtain ⟨c, hc⟩ := List.exists_mem_of_ne_nil digits hne
  exact ⟨c, by simp [hc], isWhite_of_isDigit (hdigits c hc)⟩

/-! ## Markers -/

theorem parse_eq_of_blank {cs : List Char} (h : ∀ c ∈ cs, Text.isWhite c = true) :
    parse cs = .error .empty := by
  have htrim : Text.trim cs = [] := Text.trimBoth_eq_nil_iff.mpr h
  rw [parse, htrim]
  rfl

theorem parse_eq_of_notMem {cs : List Char} (hcs : ∃ c ∈ cs, Text.isWhite c = false)
    (h : '-' ∉ cs) : parse cs = (readNumber cs).map single := by
  have hne : (Text.trim cs).isEmpty = false := by
    rw [List.isEmpty_eq_false_iff, Ne, Text.trim, Text.trimBoth_eq_nil_iff]
    simpa using hcs
  have hdrop : (Text.trim cs).dropWhile (· != '-') = [] := by
    obtain ⟨before, after, hsplit, -⟩ := Text.exists_trimBoth Text.isWhite cs
    rw [List.dropWhile_eq_nil_iff]
    intro c hc
    have hmem : c ∈ cs := by
      rw [hsplit]
      exact List.mem_append_right _ (List.mem_append_left _ hc)
    exact bne_iff_ne.mpr fun he => h (he ▸ hmem)
  have htrim : readNumber (Text.trim cs) = readNumber cs :=
    readNumber_congr (Text.trimBoth_trimBoth Text.isWhite cs)
  simp only [parse, hne, hdrop, htrim, Bool.false_eq_true, if_false]

theorem parse_append_hyphen {before : List Char} (h : '-' ∉ before) (after : List Char) :
    parse (before ++ '-' :: after) =
      (readNumber before).bind fun first => (readNumber after).bind fun last =>
        range first last := by
  have htrim : Text.trim (before ++ '-' :: after) =
      before.dropWhile Text.isWhite ++ '-' :: after.rdropWhile Text.isWhite :=
    Text.trimBoth_append_cons (by decide) before after
  have hpos : ∀ c ∈ before.dropWhile Text.isWhite, (c != '-') = true := by
    intro c hc
    have hmem := (List.dropWhile_suffix Text.isWhite).subset hc
    exact bne_iff_ne.mpr fun he => h (he ▸ hmem)
  have hne : (Text.trim (before ++ '-' :: after)).isEmpty = false := by simp [htrim]
  have hfirst : readNumber (before.dropWhile Text.isWhite) = readNumber before :=
    readNumber_congr (Text.trimBoth_dropWhile Text.isWhite before)
  have hlast : readNumber (after.rdropWhile Text.isWhite) = readNumber after :=
    readNumber_congr (Text.trimBoth_rdropWhile Text.isWhite after)
  rw [parse]
  simp only [hne, Bool.false_eq_true, if_false]
  rw [htrim, List.dropWhile_append_of_pos hpos, List.takeWhile_append_of_pos hpos]
  simp [hfirst, hlast, bind]

/-- Two numbers around the hyphen are the ends of a range, in this order. -/
theorem parse_of_written {x y : Nat} {before after : List Char} (hx : Written x before)
    (hy : Written y after) : parse (before ++ '-' :: after) = range x y := by
  rw [parse_append_hyphen (hyphen_notMem_of_written hx), readNumber_eq_ok_iff.mpr hx,
    readNumber_eq_ok_iff.mpr hy]
  rfl

theorem parse_of_spelled {m : VerseMarker} {cs : List Char} (h : Spelled m cs) :
    parse cs = .ok m := by
  cases h with
  | single hn =>
    rw [parse_eq_of_notMem (exists_of_written hn) (hyphen_notMem_of_written hn),
      readNumber_eq_ok_iff.mpr hn]
    rfl
  | range hx hy =>
    rw [parse_of_written hx hy]
    exact dif_pos m.ordered

theorem parse_of_faulty {cs part : List Char} (hcs : ∃ c ∈ cs, Text.isWhite c = false)
    (h : Faulty cs part) : parse cs = .error (.invalidNumber part) := by
  cases h with
  | whole hmem hn =>
    rw [parse_eq_of_notMem hcs hmem, readNumber_eq_error_iff.mpr ⟨hn, rfl⟩]
    rfl
  | first hmem hn =>
    rw [parse_append_hyphen hmem, readNumber_eq_error_iff.mpr ⟨hn, rfl⟩]
    rfl
  | last hmem hx hn =>
    rw [parse_append_hyphen hmem, readNumber_eq_ok_iff.mpr hx,
      readNumber_eq_error_iff.mpr ⟨hn, rfl⟩]
    rfl

/-- White space alone, a marker, two numbers in the wrong order, or a part that is no number: each
text is one of these, and reading says which. -/
theorem parse_cases (cs : List Char) :
    ((∀ c ∈ cs, Text.isWhite c = true) ∧ parse cs = .error .empty) ∨
      (∃ m, Spelled m cs ∧ parse cs = .ok m) ∨
      (∃ a b, (b < a ∧ ∃ before after, cs = before ++ '-' :: after ∧
        Written a before ∧ Written b after) ∧ parse cs = .error (.descending a b)) ∨
      ∃ part, ((∃ c ∈ cs, Text.isWhite c = false) ∧ Faulty cs part) ∧
        parse cs = .error (.invalidNumber part) := by
  have faulty {part : List Char} (hcs : ∃ c ∈ cs, Text.isWhite c = false) (h : Faulty cs part) :
      ∃ part, ((∃ c ∈ cs, Text.isWhite c = false) ∧ Faulty cs part) ∧
        parse cs = .error (.invalidNumber part) :=
    ⟨part, ⟨hcs, h⟩, parse_of_faulty hcs h⟩
  by_cases hmem : '-' ∈ cs
  · obtain ⟨before, after, rfl, hbefore⟩ := List.eq_append_cons_of_mem hmem
    have hcs : ∃ c ∈ before ++ '-' :: after, Text.isWhite c = false :=
      ⟨'-', List.mem_append_right _ List.mem_cons_self, by decide⟩
    by_cases hx : ∃ x, Written x before
    · obtain ⟨x, hx⟩ := hx
      by_cases hy : ∃ y, Written y after
      · obtain ⟨y, hy⟩ := hy
        have hparse := parse_of_written hx hy
        by_cases hle : x ≤ y
        · have hspelled : Spelled ⟨x, y, hle⟩ (before ++ '-' :: after) := .range hx hy
          exact .inr (.inl ⟨_, hspelled, parse_of_spelled hspelled⟩)
        · rw [range, dif_neg hle] at hparse
          exact .inr (.inr (.inl ⟨x, y, ⟨by omega, before, after, rfl, hx, hy⟩, hparse⟩))
      · exact .inr (.inr (.inr (faulty hcs (.last hbefore hx (not_exists.mp hy)))))
    · exact .inr (.inr (.inr (faulty hcs (.first hbefore (not_exists.mp hx)))))
  · by_cases hwhite : ∀ c ∈ cs, Text.isWhite c = true
    · exact .inl ⟨hwhite, parse_eq_of_blank hwhite⟩
    · have hcs : ∃ c ∈ cs, Text.isWhite c = false := by simpa using hwhite
      by_cases hn : ∃ n, Written n cs
      · obtain ⟨n, hn⟩ := hn
        exact .inr (.inl ⟨single n, .single hn, parse_of_spelled (.single hn)⟩)
      · exact .inr (.inr (.inr (faulty hcs (.whole hmem (not_exists.mp hn)))))

/-- **The forms of verse numbers.** A text reads as a marker exactly where it is a written form of
it. Otherwise it is white space alone, or two numbers of which the second is smaller, or else it has
a part that is no number, and the error says which and names the first such part. A marker reads
back from its label, and so from the payload of its tap target. -/
theorem parse_spellings (cs : List Char) :
    (∀ m, parse cs = .ok m ↔ Spelled m cs) ∧
      (parse cs = .error .empty ↔ ∀ c ∈ cs, Text.isWhite c = true) ∧
      (∀ a b, parse cs = .error (.descending a b) ↔ b < a ∧ ∃ before after,
        cs = before ++ '-' :: after ∧ Written a before ∧ Written b after) ∧
      (∀ part, parse cs = .error (.invalidNumber part) ↔
        (∃ c ∈ cs, Text.isWhite c = false) ∧ Faulty cs part) ∧
      (∀ m : VerseMarker, m.last ≤ 2 ^ 32 - 1 → parse m.label = .ok m) ∧
      ∀ m, parse cs = .ok m → parse m.label = .ok m ∧ parse m.region.payload.toList = .ok m := by
  have hcases := parse_cases cs
  refine ⟨fun m => ⟨fun h => ?_, parse_of_spelled⟩, ⟨fun h => ?_, parse_eq_of_blank⟩,
    fun a b => ⟨fun h => ?_, ?_⟩,
    fun part => ⟨fun h => ?_, fun h => parse_of_faulty h.1 h.2⟩,
    fun m h => parse_label (lt_bound_iff.mpr h), fun m h => ?_⟩
  · simpa [h] using hcases
  · simpa [h] using hcases
  · simpa [h] using hcases
  · rintro ⟨hlt, before, after, rfl, ha, hb⟩
    rw [parse_of_written ha hb]
    exact dif_neg (by omega)
  · simpa [h] using hcases
  · have hlabel := parse_label (fits_of_parse h)
    refine ⟨hlabel, ?_⟩
    rw [region, String.toList_ofList]
    exact hlabel

end Passage.VerseMarker
