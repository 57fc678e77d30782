import Mathlib.Data.List.Basic
import Passage.Settings.Load

/-! From the values in effect to settings and on to a configuration: each value is converted
by itself, verse numbers are read back as they were written, and only the bounds are judged
after that. -/

namespace Passage.RenderSettings

theorem ofEntries?_eq {es : Toml.Entries} (h : (valueIn? es renderVersesKey).isSome = true) :
    ofEntries? es =
      (do ofValues? (← valueIn? es renderVersesKey) (← valueIn? es expectedVersesKey)
            (← valueIn? es suppressLeadingHeadingKey) (← valueIn? es breakBeforeVersesKey)) := by
  simp only [valueIn?] at h ⊢
  rw [ofEntries?]
  generalize Toml.lookup? es tableKey = t at h ⊢
  cases t with
  | none => cases h
  | some t => cases t <;> first | rfl | cases h

theorem ofValues?_eq_some_iff {a b c d : Toml} {s : RenderSettings} :
    ofValues? a b c d = some s ↔ Convert.toBool? a = some s.renderVerses ∧
      Convert.toNumbers? b = some s.expectedVerses ∧
      Convert.toBool? c = some s.suppressLeadingHeading ∧
      Convert.toBool? d = some s.breakBeforeVerses := by
  obtain ⟨render, expected, suppress, before⟩ := s
  simp only [ofValues?, Option.bind_eq_bind, Option.bind_eq_some_iff, Option.pure_def,
    Option.some.injEq, RenderSettings.mk.injEq]
  constructor
  · rintro ⟨_, ha, _, hb, _, hc, _, hd, rfl, rfl, rfl, rfl⟩
    exact ⟨ha, hb, hc, hd⟩
  · rintro ⟨ha, hb, hc, hd⟩
    exact ⟨_, ha, _, hb, _, hc, _, hd, rfl, rfl, rfl, rfl⟩

theorem ofValues?_eq_none_iff {a b c d : Toml} :
    ofValues? a b c d = none ↔ Convert.toBool? a = none ∨ Convert.toNumbers? b = none ∨
      Convert.toBool? c = none ∨ Convert.toBool? d = none := by
  rw [ofValues?]
  cases Convert.toBool? a with
  | none => exact iff_of_true rfl (.inl rfl)
  | some _ =>
    cases Convert.toNumbers? b with
    | none => exact iff_of_true rfl (.inr (.inl rfl))
    | some _ => cases Convert.toBool? c <;> cases Convert.toBool? d <;> simp

/-- Bounds are refused if there are more than two, or two the wrong way round. -/
theorem toConfig_eq_error_iff {s : RenderSettings} :
    (∃ e, s.toConfig = .error e) ↔ 2 < s.expectedVerses.length ∨
      ∃ first last, s.expectedVerses = [first, last] ∧ last < first := by
  rw [toConfig]
  match s.expectedVerses with
  | [] | [_] => simp [ExpectedVerses.ofBounds, Except.map]
  | [first, last] =>
    by_cases h : first ≤ last
    · simp [ExpectedVerses.ofBounds, Except.map, h]
    · simp [ExpectedVerses.ofBounds, Except.map, h, Nat.lt_of_not_le h]
  | _ :: _ :: _ :: _ => simp [ExpectedVerses.ofBounds, Except.map]

/-- A list of verse numbers is written as it is and read back. -/
theorem toNumbers?_integers {ns : List Nat} (h : ∀ n ∈ ns, n < VerseMarker.bound) :
    Convert.toNumbers? (.array (ns.map fun n : Nat => .integer n)) = some ns := by
  rw [Convert.toNumbers?]
  induction ns with
  | nil => rfl
  | cons n ns ih =>
    have hn : Convert.toNumber? (.integer n) = some n := by
      simp [Convert.toNumber?, Convert.fitting, h n List.mem_cons_self]
    rw [List.map_cons, List.mapM_cons, hn, ih fun m hm => h m (List.mem_cons_of_mem _ hm)]
    rfl

end Passage.RenderSettings
