import Passage.Proofs.Styled.Placed
import Passage.Proofs.Styled.Ranged

/-! The tap targets of a text, each with what it covers. Each run that has a target is one, over the
text of the run (`tapTargets_eq`). So targets are as many as the runs that have any, and text
without targets after another text adds none (`tapTargets_append`). -/

namespace Passage

namespace Run

/-- The region that a run can be tapped for, with the text of the run. -/
def tapTarget? (r : Run) : Option (Region × List Char) :=
  r.styles.regions.head?.map (·, r.text)

variable {r s : Run} {rs us : List Run}

theorem tapTarget?_eq_none_iff : r.tapTarget? = none ↔ r.styles.regions = [] := by
  rw [tapTarget?, Option.map_eq_none_iff, List.head?_eq_none_iff]

/-! ## Runs put together -/

/-- A run in another style than the next one stands for itself. -/
theorem join_of_ne (hr : r.text ≠ []) (h : ∀ s ∈ rs.head?, r.styles ≠ s.styles) :
    join r rs = r :: rs := by
  have hempty : ¬ r.text.isEmpty = true := by simpa using hr
  unfold join
  rw [if_neg hempty]
  cases rs with
  | nil => rfl
  | cons s rs => exact if_neg (h s rfl)

/-- A run in the style of the next one becomes a part of it. -/
theorem join_of_eq (hr : r.text ≠ []) (h : r.styles = s.styles) :
    join r (s :: rs) = ⟨r.text ++ s.text, r.styles⟩ :: rs := by
  have hempty : ¬ r.text.isEmpty = true := by simpa using hr
  unfold join
  rw [if_neg hempty]
  exact if_pos h

theorem join_of_empty (hr : r.text = []) : join r rs = rs := by
  unfold join
  rw [if_pos (by simpa using hr)]

theorem exists_join_eq_cons (hr : r.text ≠ []) (rs : List Run) :
    ∃ x rest, join r rs = ⟨x, r.styles⟩ :: rest := by
  by_cases h : ∀ s ∈ rs.head?, r.styles ≠ s.styles
  · exact ⟨r.text, rs, join_of_ne hr h⟩
  · push Not at h
    obtain ⟨s, hs, h⟩ := h
    obtain ⟨rest, rfl⟩ := List.head?_eq_some_iff.mp hs
    exact ⟨_, _, join_of_eq hr h⟩

/-- A run without a target adds none. -/
theorem filterMap_tapTarget?_join (h : r.styles.regions = []) (rs : List Run) :
    (join r rs).filterMap tapTarget? = rs.filterMap tapTarget? := by
  have hnone : r.tapTarget? = none := tapTarget?_eq_none_iff.mpr h
  by_cases hr : r.text = []
  · rw [join_of_empty hr]
  by_cases hne : ∀ s ∈ rs.head?, r.styles ≠ s.styles
  · rw [join_of_ne hr hne, List.filterMap_cons_none hnone]
  · push Not at hne
    obtain ⟨s, hs, hsame⟩ := hne
    obtain ⟨rest, rfl⟩ := List.head?_eq_some_iff.mp hs
    have hs : s.tapTarget? = none := tapTarget?_eq_none_iff.mpr (hsame ▸ h)
    have hjoined : tapTarget? ⟨r.text ++ s.text, r.styles⟩ = none := tapTarget?_eq_none_iff.mpr h
    rw [join_of_eq hr hsame, List.filterMap_cons_none hjoined, List.filterMap_cons_none hs]

/-- A run with a target does not go on where no run has any. -/
theorem styles_ne_of_filterMap_eq_nil (h : rs.filterMap tapTarget? = [])
    (hr : r.styles.regions ≠ []) : ∀ s ∈ rs.head?, r.styles ≠ s.styles := by
  intro s hs hsame
  have hnone := List.filterMap_eq_nil_iff.mp h s (List.mem_of_mem_head? hs)
  exact hr (hsame ▸ tapTarget?_eq_none_iff.mp hnone)

/-- Runs without targets after others add none. -/
theorem filterMap_tapTarget?_append (hc : Canonical rs)
    (hu : ∀ r ∈ us, r.styles.regions = []) :
    (normalize (rs ++ us)).filterMap tapTarget? = rs.filterMap tapTarget? := by
  have hnil : (normalize us).filterMap tapTarget? = [] := by
    induction us with
    | nil => rfl
    | cons u us ih =>
      obtain ⟨hu, hus⟩ := List.forall_mem_cons.mp hu
      exact (filterMap_tapTarget?_join hu _).trans (ih hus)
  induction rs with
  | nil => exact hnil
  | cons r rs ih =>
    have ih := ih hc.tail
    by_cases hr : r.styles.regions = []
    · rw [List.filterMap_cons_none (tapTarget?_eq_none_iff.mpr hr), ← ih]
      exact filterMap_tapTarget?_join hr _
    · have hhead : ∀ s ∈ (normalize (rs ++ us)).head?, r.styles ≠ s.styles := by
        cases rs with
        | nil => exact styles_ne_of_filterMap_eq_nil hnil hr
        | cons s rs =>
          obtain ⟨-, hne, hrest⟩ := hc
          obtain ⟨x, rest, hjoin⟩ :=
            exists_join_eq_cons hrest.text_ne_nil (normalize (rs ++ us))
          have hnormal : normalize (s :: rs ++ us) = ⟨x, s.styles⟩ :: rest := hjoin
          rw [hnormal]
          rintro _ ⟨⟩
          exact hne
      have hnormal : normalize (r :: rs ++ us) = r :: normalize (rs ++ us) :=
        join_of_ne hc.text_ne_nil hhead
      rw [hnormal, List.filterMap_cons, List.filterMap_cons, ih]

end Run

namespace StyledText

variable {t u : StyledText}

/-- Each run has the styles of one of its characters. -/
theorem forall_runs_of_chars {P : StyleSet → Prop} (h : ∀ c ∈ t.chars, P c.2) :
    ∀ r ∈ t.runs, P r.styles := by
  intro r hr
  obtain ⟨c, cs, hc⟩ := List.exists_cons_of_ne_nil ((Run.canonical_iff.mp t.canonical).1 r hr)
  refine h (c, r.styles) (List.mem_flatMap.mpr ⟨r, hr, ?_⟩)
  rw [Run.chars, hc]
  exact List.mem_cons_self

/-- The tap targets of a text, each with what it covers. -/
def tapTargets (t : StyledText) : List (Region × Option (List Char)) :=
  t.regions.map fun p => (p.2, (t.slice? p.1).map text)

theorem tapTargets_eq (t : StyledText) :
    t.tapTargets = (t.runs.filterMap Run.tapTarget?).map fun p => (p.1, some p.2) := by
  have htarget : ∀ p ∈ t.placed,
      (p.2.styles.regions.head?.map fun region => (region, (t.slice? p.1).map text)) =
        p.2.tapTarget?.map fun q => (q.1, some q.2) := by
    intro p hp
    have hne := (Run.canonical_iff.mp t.canonical).1 p.2 (mem_runs_of_mem_placed hp)
    rw [slice?_of_mem_placed hp hne, Option.map_some, text_styled, Run.tapTarget?, Option.map_map]
    rfl
  have hregions : t.tapTargets = t.placed.filterMap fun p =>
      p.2.styles.regions.head?.map fun region => (region, (t.slice? p.1).map text) := by
    rw [tapTargets, regions, List.map_filterMap]
    simp only [Option.map_map, Function.comp_def]
  rw [hregions, List.filterMap_congr htarget, List.map_filterMap, placed,
    ← Run.map_snd_placedFrom 0 t.runs, List.filterMap_map, Run.map_snd_placedFrom]
  rfl

def Untapped (t : StyledText) : Prop :=
  ∀ c ∈ t.chars, c.2.regions = []

theorem Untapped.styled {styles : StyleSet} (h : styles.regions = []) (cs : List Char) :
    (StyledText.styled cs styles).Untapped := by
  rw [Untapped, chars_styled]
  exact List.forall_mem_map.mpr fun _ _ => h

theorem Untapped.plain (cs : List Char) : (StyledText.plain cs).Untapped :=
  .styled rfl cs

theorem Untapped.append (ht : t.Untapped) (hu : u.Untapped) : (t ++ u).Untapped := by
  rw [Untapped, chars_append]
  exact List.forall_mem_append.mpr ⟨ht, hu⟩

/-- Text that cannot be tapped, after another text, adds no target. -/
theorem tapTargets_append (hu : u.Untapped) : (t ++ u).tapTargets = t.tapTargets := by
  have hruns := Run.filterMap_tapTarget?_append t.canonical
    (forall_runs_of_chars (P := fun s => s.regions = []) hu)
  rw [tapTargets_eq, tapTargets_eq]
  exact congrArg _ hruns

end StyledText

end Passage
