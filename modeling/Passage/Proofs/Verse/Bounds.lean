import Passage.Proofs.Text.Items
import Passage.Proofs.Verse.Spelling
import Passage.Verse.Bounds

/-! Bounds of expected verses beside verse numbers. A bound may be written as a verse number is, and
besides with a plus sign, which no verse number has (`readBound_eq_ok_iff`). The bounds around
commas are read one by one, so a list of numbers reads back from its decimals (`bounds_spellings`). -/

namespace Passage

theorem Text.readNumeral?_eq_some_iff {bound n : Nat} {cs : List Char} :
    readNumeral? bound cs = some n ↔
      readDecimal? bound cs = some n ∨ ∃ ds, cs = '+' :: ds ∧ readDecimal? bound ds = some n := by
  have hplus (ds : List Char) : readDecimal? bound ('+' :: ds) = none := by
    simp [readDecimal?, Char.isDigit]
  rw [readNumeral?.eq_def]
  split
  · next ds => simp [hplus]
  · next hne =>
    refine ⟨.inl, fun h => h.resolve_right ?_⟩
    rintro ⟨ds, rfl, -⟩
    exact hne ds rfl

/-- Without a hyphen a marker is one number. -/
theorem VerseMarker.parse_eq_ok_iff_written {cs : List Char} (h : '-' ∉ cs) {m : VerseMarker} :
    parse cs = .ok m ↔ ∃ n, m = single n ∧ Written n cs := by
  constructor
  · intro hm
    by_cases hcs : ∃ c ∈ cs, Text.isWhite c = false
    · rw [parse_eq_of_notMem hcs h] at hm
      cases hn : readNumber cs with
      | ok n =>
        rw [hn] at hm
        exact ⟨n, (Except.ok.inj hm).symm, readNumber_eq_ok_iff.mp hn⟩
      | error e =>
        rw [hn] at hm
        cases hm
    · rw [parse_eq_of_blank (by simpa using hcs)] at hm
      cases hm
  · rintro ⟨n, rfl, hn⟩
    exact parse_of_spelled (.single hn)

theorem VerseMarker.parse_eq_single_iff {cs : List Char} (h : '-' ∉ cs) {n : Nat} :
    parse cs = .ok (single n) ↔ Written n cs := by
  rw [parse_eq_ok_iff_written h]
  constructor
  · rintro ⟨k, hk, hwritten⟩
    rwa [show n = k from congrArg VerseMarker.first hk]
  · exact fun hn => ⟨n, rfl, hn⟩

namespace ExpectedVerses
open VerseMarker (Written bound isWhite_of_isDigit lt_bound_iff readDecimal?_trim_eq_some_iff)

/-- A number is written with a plus sign right before its digits. -/
def Signed (n : Nat) (cs : List Char) : Prop :=
  ∃ before digits after, cs = before ++ ('+' :: digits ++ after) ∧
    (∀ c ∈ before, Text.isWhite c = true) ∧ (∀ c ∈ after, Text.isWhite c = true) ∧
    digits ≠ [] ∧ (∀ c ∈ digits, c.isDigit = true) ∧
    Nat.ofDigitChars 10 digits 0 = n ∧ n ≤ 2 ^ 32 - 1

variable {n : Nat} {ns : List Nat} {cs : List Char} {parts : List (List Char)}

/-! ## One bound -/

theorem trim_of_signed {before digits after : List Char}
    (hbefore : ∀ c ∈ before, Text.isWhite c = true) (hafter : ∀ c ∈ after, Text.isWhite c = true)
    (hdigits : ∀ c ∈ digits, c.isDigit = true) :
    Text.trim (before ++ ('+' :: digits ++ after)) = '+' :: digits := by
  rw [Text.trim, Text.trimBoth_append_left hbefore, Text.trimBoth_append_right hafter]
  have hwhite : ∀ c ∈ '+' :: digits, Text.isWhite c = false :=
    List.forall_mem_cons.mpr ⟨by decide, fun c hc => isWhite_of_isDigit (hdigits c hc)⟩
  exact Text.trimBoth_eq_self (fun c hc => hwhite c (List.mem_of_mem_head? hc))
    fun c hc => hwhite c (List.mem_of_getLast? hc)

theorem signed_iff : Signed n cs ↔
    ∃ ds, Text.trim cs = '+' :: ds ∧ Text.readDecimal? bound ds = some n := by
  simp only [Text.readDecimal?_eq_some_iff, lt_bound_iff]
  constructor
  · rintro ⟨before, digits, after, rfl, hbefore, hafter, hdigits⟩
    exact ⟨digits, trim_of_signed hbefore hafter hdigits.2.1, hdigits⟩
  · rintro ⟨digits, htrim, hdigits⟩
    obtain ⟨before, after, hcs, hbefore, hafter⟩ := Text.exists_trimBoth Text.isWhite cs
    rw [← Text.trim, htrim] at hcs
    exact ⟨before, digits, after, hcs, hbefore, hafter, hdigits⟩

theorem readBound_eq_ok_iff : readBound cs = .ok n ↔ Written n cs ∨ Signed n cs := by
  rw [← readDecimal?_trim_eq_some_iff, signed_iff, ← Text.readNumeral?_eq_some_iff, readBound]
  split <;> simp_all

theorem readBound_eq_error_iff {e : VerseError} : readBound cs = .error e ↔
    (∀ n, readBound cs ≠ .ok n) ∧ e = .invalidNumber (Text.trim cs) := by
  rw [readBound]
  split <;> simp [eq_comm]

/-- A number with a plus sign is no verse number. -/
theorem not_written_of_signed (h : Signed n cs) (k : Nat) : ¬ Written k cs := by
  obtain ⟨ds, htrim, -⟩ := signed_iff.mp h
  rw [← readDecimal?_trim_eq_some_iff, htrim, Text.readDecimal?_eq_some_iff]
  rintro ⟨-, hdigits, -⟩
  exact absurd (hdigits '+' List.mem_cons_self) (by decide)

theorem exists_of_signed (h : Signed n cs) : ∃ c ∈ cs, Text.isWhite c = false := by
  obtain ⟨before, digits, after, rfl, -⟩ := h
  exact ⟨'+', by simp, by decide⟩

/-! ## Bounds around commas -/

theorem readBounds_intercalate (hparts : ∀ p ∈ parts, ',' ∉ p) (hne : parts ≠ []) :
    readBounds ([','].intercalate parts) = parts.mapM readBound := by
  rw [readBounds, List.splitOn_intercalate ',' hparts hne]

theorem readBounds_eq_mapM (h : ',' ∉ cs) : readBounds cs = [cs].mapM readBound := by
  have hparts : ∀ p ∈ [cs], ',' ∉ p := by simpa using h
  have hone := readBounds_intercalate hparts (List.cons_ne_nil _ _)
  rwa [List.intercalate_singleton] at hone

theorem readBounds_eq_ok_iff (h : ',' ∉ cs) :
    readBounds cs = .ok ns ↔ ∃ n, ns = [n] ∧ readBound cs = .ok n := by
  rw [readBounds_eq_mapM h, mapM_eq_ok_iff, List.forall₂_cons_left_iff]
  simp [and_comm]

theorem readBounds_eq_ok_singleton_iff (h : ',' ∉ cs) :
    readBounds cs = .ok [n] ↔ readBound cs = .ok n := by
  simp [readBounds_eq_ok_iff h]

theorem readBounds_eq_error_iff (h : ',' ∉ cs) {e : VerseError} :
    readBounds cs = .error e ↔ readBound cs = .error e := by
  rw [readBounds_eq_mapM h, List.mapM_cons, List.mapM_nil]
  cases readBound cs <;> simp [bind, Except.bind, pure, Except.pure]

theorem exists_readBounds_iff (hcomma : ',' ∉ cs) (hhyphen : '-' ∉ cs) :
    (∃ ns, readBounds cs = .ok ns) ↔ (∃ m, VerseMarker.parse cs = .ok m) ∨ ∃ n, Signed n cs := by
  simp only [readBounds_eq_ok_iff hcomma, readBound_eq_ok_iff,
    VerseMarker.parse_eq_ok_iff_written hhyphen]
  constructor
  · rintro ⟨_, n, -, hn⟩
    exact hn.imp (fun h => ⟨_, n, rfl, h⟩) fun h => ⟨n, h⟩
  · rintro (⟨_, n, -, h⟩ | ⟨n, h⟩)
    · exact ⟨_, n, rfl, .inl h⟩
    · exact ⟨_, n, rfl, .inr h⟩

/-- The two readers accept the same, but for plus signs. -/
theorem readers_agree_iff (hcomma : ',' ∉ cs) (hhyphen : '-' ∉ cs) :
    ((∃ ns, readBounds cs = .ok ns) ↔ ∃ m, VerseMarker.parse cs = .ok m) ↔
      ∀ n, ¬ Signed n cs := by
  rw [exists_readBounds_iff hcomma hhyphen, or_iff_left_iff_imp]
  constructor
  · intro hparse n hn
    obtain ⟨m, hm⟩ := hparse ⟨n, hn⟩
    obtain ⟨k, -, hk⟩ := (VerseMarker.parse_eq_ok_iff_written hhyphen).mp hm
    exact not_written_of_signed hn k hk
  · rintro hnone ⟨n, hn⟩
    exact absurd hn (hnone n)

theorem readBound_decimal (h : n ≤ 2 ^ 32 - 1) : readBound (Text.decimal n) = .ok n :=
  readBound_eq_ok_iff.mpr (.inl (VerseMarker.readNumber_eq_ok_iff.mp
    (VerseMarker.readNumber_decimal (lt_bound_iff.mpr h))))

theorem comma_notMem_decimal (n : Nat) : ',' ∉ Text.decimal n := fun h =>
  absurd (Text.isDigit_of_mem_decimal h) (by decide)

/-- **Bounds are read as verse numbers are, and with a plus sign besides.** Of a text without commas
and hyphens the two readers say the same exactly if it has no plus sign before its digits. It is a
bound if it is a verse number, which is then the bound, or has the plus sign, and then it is no
verse number. A text that is refused is named in the error. Bounds around commas are read if each of
them is, in their order, and the first that is refused is the error; so a list of numbers reads back
from its decimals with commas between them. -/
theorem bounds_spellings (cs : List Char) (parts : List (List Char)) (ns : List Nat) :
    (',' ∉ cs → '-' ∉ cs →
      (((∃ ns, readBounds cs = .ok ns) ↔ ∃ m, VerseMarker.parse cs = .ok m) ↔
        ∀ n, ¬ Signed n cs) ∧
      (∀ ns, readBounds cs = .ok ns ↔
        ∃ n, ns = [n] ∧ (VerseMarker.parse cs = .ok (.single n) ∨ Signed n cs)) ∧
      (∀ m, VerseMarker.parse cs = .ok m → ∃ n, m = .single n) ∧
      (∀ n, Signed n cs → VerseMarker.parse cs = .error (.invalidNumber (Text.trim cs))) ∧
      ∀ e, readBounds cs = .error e → e = .invalidNumber (Text.trim cs)) ∧
    (parts ≠ [] → (∀ p ∈ parts, ',' ∉ p) →
      (∀ ns, readBounds ([','].intercalate parts) = .ok ns ↔
        List.Forall₂ (fun p n => readBounds p = .ok [n]) parts ns) ∧
      ∀ e, readBounds ([','].intercalate parts) = .error e ↔
        ∃ front p back, parts = front ++ p :: back ∧
          (∀ q ∈ front, ∃ n, readBounds q = .ok [n]) ∧ readBounds p = .error e) ∧
    (ns ≠ [] → (∀ n ∈ ns, n ≤ 2 ^ 32 - 1) →
      readBounds ([','].intercalate (ns.map Text.decimal)) = .ok ns) := by
  refine ⟨fun hcomma hhyphen => ⟨readers_agree_iff hcomma hhyphen, fun ns => ?_, fun m hm => ?_,
    fun n hn => ?_, fun e he => ?_⟩, fun hne hparts => ⟨fun ns => ?_, fun e => ?_⟩,
    fun hne hns => ?_⟩
  · rw [readBounds_eq_ok_iff hcomma]
    simp only [readBound_eq_ok_iff, VerseMarker.parse_eq_single_iff hhyphen]
  · obtain ⟨n, hn, -⟩ := (VerseMarker.parse_eq_ok_iff_written hhyphen).mp hm
    exact ⟨n, hn⟩
  · have hwhite : ∃ c ∈ cs, Text.isWhite c = false := exists_of_signed hn
    exact VerseMarker.parse_of_faulty hwhite (.whole hhyphen (not_written_of_signed hn))
  · exact (readBound_eq_error_iff.mp ((readBounds_eq_error_iff hcomma).mp he)).2
  · rw [readBounds_intercalate hparts hne, mapM_eq_ok_iff, List.forall₂_iff_zip,
      List.forall₂_iff_zip]
    refine and_congr_right fun _ => forall₃_congr fun p n hmem => ?_
    exact (readBounds_eq_ok_singleton_iff (hparts p (List.of_mem_zip hmem).1)).symm
  · rw [readBounds_intercalate hparts hne, mapM_eq_error_iff]
    refine exists₃_congr fun front p back => and_congr_right ?_
    rintro rfl
    obtain ⟨hfront, hp, -⟩ := List.forall_mem_append.mp hparts |>.imp_right List.forall_mem_cons.mp
    rw [readBounds_eq_error_iff hp]
    refine and_congr_left' (forall₂_congr fun q hq => exists_congr fun n => ?_)
    exact (readBounds_eq_ok_singleton_iff (hfront q hq)).symm
  · have hcommas : ∀ p ∈ ns.map Text.decimal, ',' ∉ p :=
      List.forall_mem_map.mpr fun n _ => comma_notMem_decimal n
    rw [readBounds_intercalate hcommas (by simpa using hne), mapM_eq_ok_iff,
      List.forall₂_map_left_iff, List.forall₂_same]
    exact fun n hn => readBound_decimal (hns n hn)

/-- A list of two bounds, the second one with a plus sign. -/
theorem bounds_spellings_of_two :
    let parts := [" 007".toList, "+8 ".toList]
    (∀ p ∈ parts, ',' ∉ p) ∧ readBounds ([','].intercalate parts) = .ok [7, 8] ∧
      VerseMarker.parse " 007".toList = .ok (.single 7) := by
  intro parts
  have hparts : ∀ p ∈ parts, ',' ∉ p := by decide
  obtain ⟨hone, hlist, -⟩ := bounds_spellings " 007".toList parts []
  have hplain := (hone (by decide) (by decide)).2.1 [7]
  have hseven : VerseMarker.parse " 007".toList = .ok (.single 7) := by decide
  refine ⟨hparts, (hlist (by decide) hparts).1 [7, 8] |>.mpr ?_, hseven⟩
  exact .cons (hplain.mpr ⟨7, rfl, .inl hseven⟩) (.cons (by decide) .nil)

/-- A plus sign makes a bound of a text that is no verse number. -/
theorem bound_with_plus_sign :
    ',' ∉ "+4".toList ∧ '-' ∉ "+4".toList ∧ readBounds "+4".toList = .ok [4] ∧
      VerseMarker.parse "+4".toList = .error (.invalidNumber "+4".toList) := by
  decide

end ExpectedVerses

end Passage
