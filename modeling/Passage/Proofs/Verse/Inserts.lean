import Passage.Proofs.Verse.Accepted

/-! A verse set as what was put into it. Markers are offered one after the other, and those that
were taken are the spans of the set (`perm_spans_offerAll`): however wide they are and in whatever
order they came, each question to the set is answered as by looking through all of them
(`offers_refine`). -/

namespace Passage.VerseSet

open VerseMarker (Apart)

def offerAll (s : VerseSet) (ms : List VerseMarker) : VerseSet :=
  ms.foldl (fun s m => (s.offer m).2) s

/-- The markers of a row of offers that were taken. -/
def taken (s : VerseSet) : List VerseMarker → List VerseMarker
  | [] => []
  | m :: ms =>
    if (s.offer m).1 then m :: taken (s.offer m).2 ms else taken (s.offer m).2 ms

/-! ## One offer -/

theorem perm_place (m : VerseMarker) (l : List VerseMarker) : (place m l).Perm (m :: l) := by
  induction l with
  | nil => exact .refl _
  | cons k rest ih =>
    rw [place]
    split
    · exact .refl _
    · exact (ih.cons k).trans (.swap m k rest)

theorem overlaps_eq_true_iff {s : VerseSet} {m : VerseMarker} :
    s.overlaps m = true ↔ ∃ a ∈ s.spans, ∃ n, n ∈ a ∧ n ∈ m := by
  rw [overlaps_iff]
  constructor
  · rintro ⟨n, hm, a, ha, hn⟩
    exact ⟨a, ha, n, hn, hm⟩
  · rintro ⟨a, ha, n, hn, hm⟩
    exact ⟨n, hm, a, ha, hn⟩

theorem overlaps_eq_false_iff {s : VerseSet} {m : VerseMarker} :
    s.overlaps m = false ↔ ∀ a ∈ s.spans, a.Apart m := by
  rw [← Bool.not_eq_true, overlaps_eq_true_iff]
  constructor
  · intro h a ha n hn hm
    exact h ⟨a, ha, n, hn, hm⟩
  · rintro h ⟨a, ha, n, hn, hm⟩
    exact h a ha n hn hm

theorem contains_eq_true_iff {s : VerseSet} {n : Nat} :
    s.contains n = true ↔ ∃ a ∈ s.spans, n ∈ a := by
  rw [contains_iff, mem_iff]

/-- A marker is taken and its span comes to the others, or the set stays as it is. -/
theorem offer_cases (s : VerseSet) (m : VerseMarker) :
    (s.overlaps m = false ∧ (s.offer m).1 = true ∧ (s.offer m).2.spans.Perm (m :: s.spans)) ∨
      (s.overlaps m = true ∧ s.offer m = (false, s)) := by
  rw [offer]
  cases hinsert : s.insert? m with
  | none => exact .inr ⟨insert?_eq_none_iff.mp hinsert, rfl⟩
  | some t =>
    have hoverlaps : s.overlaps m = false := by
      rw [← Bool.not_eq_true, ← insert?_eq_none_iff, hinsert]
      exact Option.some_ne_none t
    have hspans : t.spans.Perm (m :: s.spans) := by
      rw [spans_of_insert? hinsert]
      exact perm_place m s.spans
    exact .inl ⟨hoverlaps, rfl, hspans⟩

theorem offer_fst_eq_true_iff {s : VerseSet} {m : VerseMarker} :
    (s.offer m).1 = true ↔ ∀ a ∈ s.spans, a.Apart m := by
  rw [← overlaps_eq_false_iff]
  rcases offer_cases s m with ⟨hoverlaps, htaken, -⟩ | ⟨hoverlaps, hoffer⟩
  · simp [hoverlaps, htaken]
  · simp [hoverlaps, hoffer]

theorem offer_snd_of_refused {s : VerseSet} {m : VerseMarker} (h : (s.offer m).1 = false) :
    (s.offer m).2 = s := by
  rcases offer_cases s m with ⟨-, htaken, -⟩ | ⟨-, hoffer⟩
  · rw [htaken] at h
    cases h
  · rw [hoffer]

/-! ## A row of offers -/

/-- After a row of offers the spans are those that were there and the markers that were taken. -/
theorem perm_spans_offerAll (s : VerseSet) (ms : List VerseMarker) :
    (s.offerAll ms).spans.Perm (s.spans ++ s.taken ms) := by
  induction ms generalizing s with
  | nil =>
    rw [taken, List.append_nil]
    exact .refl _
  | cons m ms ih =>
    have hrest : (s.offerAll (m :: ms)).spans.Perm
        ((s.offer m).2.spans ++ (s.offer m).2.taken ms) := ih (s.offer m).2
    refine hrest.trans ?_
    rw [taken]
    rcases offer_cases s m with ⟨-, htaken, hspans⟩ | ⟨-, hoffer⟩
    · rw [if_pos htaken]
      exact (hspans.append_right _).trans List.perm_middle.symm
    · rw [hoffer]
      exact .refl _

/-- Markers that share no numbers with each other and with the set are all taken. -/
theorem taken_eq_self {s : VerseSet} {ms : List VerseMarker} (hms : ms.Pairwise Apart)
    (hs : ∀ a ∈ s.spans, ∀ m ∈ ms, a.Apart m) : s.taken ms = ms := by
  induction ms generalizing s with
  | nil => rfl
  | cons m ms ih =>
    obtain ⟨hm, hms⟩ := List.pairwise_cons.mp hms
    have htaken : (s.offer m).1 = true :=
      offer_fst_eq_true_iff.mpr fun a ha => hs a ha m List.mem_cons_self
    rcases offer_cases s m with ⟨-, -, hspans⟩ | ⟨-, hoffer⟩
    · rw [taken, if_pos htaken, ih hms]
      intro a ha k hk
      rcases List.mem_cons.mp (hspans.mem_iff.mp ha) with rfl | ha
      · exact hm k hk
      · exact hs a ha k (List.mem_cons_of_mem _ hk)
    · rw [hoffer] at htaken
      cases htaken

/-- Sets with the same spans are one set. -/
theorem eq_of_perm {s t : VerseSet} (h : s.spans.Perm t.spans) : s = t := by
  have hspans : s.spans = t.spans := by
    refine h.eq_of_pairwise (fun a b _ _ hab hba => ?_) s.ascending t.ascending
    have := a.ordered
    have := b.ordered
    omega
  cases s
  cases t
  congr

theorem apart_spans (s : VerseSet) : s.spans.Pairwise Apart := by
  refine s.ascending.imp fun {a b} hab n ha hb => ?_
  have := VerseMarker.mem_iff.mp ha
  have := VerseMarker.mem_iff.mp hb
  omega

end Passage.VerseSet

namespace Passage.ExpectedVerses

theorem pairwise_missing (e : ExpectedVerses) (found : VerseSet) :
    (e.missing found).Pairwise (· < ·) := by
  rw [missing]
  split
  · exact .nil
  · exact (List.pairwise_lt_range' ..).filter _

end Passage.ExpectedVerses

namespace Passage.VerseSet

open VerseMarker (Apart)

/-- **A verse set is the set of the numbers that were put into it.** After any row of offers to the
empty set, a marker is taken exactly where it shares no number with a marker taken before, and a
refusal changes nothing; the spans are the markers that were taken, and they share no numbers; and
overlaps, members, emptiness and the missing numbers are those of the markers that were taken.
Markers that share no numbers give one set in whatever order they are offered. -/
theorem offers_refine (ms : List VerseMarker) :
    let s := offerAll ∅ ms
    let held := taken ∅ ms
    (∀ m, (s.offer m).1 = true ↔ ∀ a ∈ held, ∀ n, n ∈ a → n ∉ m) ∧
      (∀ m, (s.offer m).1 = false → (s.offer m).2 = s) ∧
      (s.spans.Perm held ∧ s.spans.Pairwise fun a b => ∀ n, n ∈ a → n ∉ b) ∧
      (∀ m, s.overlaps m = true ↔ ∃ a ∈ held, ∃ n, n ∈ a ∧ n ∈ m) ∧
      (∀ n, s.contains n = true ↔ ∃ a ∈ held, n ∈ a) ∧
      (s.isEmpty = true ↔ held = []) ∧
      (∀ e : ExpectedVerses, (e.missing s).Pairwise (· < ·) ∧ ∀ n, n ∈ e.missing s ↔
        (∃ lo hi, e.bounds? = some (lo, hi) ∧ lo ≤ n ∧ n ≤ hi) ∧ ∀ a ∈ held, n ∉ a) ∧
      ∀ ms', ms.Perm ms' → ms.Pairwise (fun a b => ∀ n, n ∈ a → n ∉ b) →
        held = ms ∧ offerAll ∅ ms' = s := by
  intro s held
  have hperm : s.spans.Perm held := perm_spans_offerAll ∅ ms
  refine ⟨fun m => ?_, fun m => offer_snd_of_refused, ⟨hperm, apart_spans s⟩, fun m => ?_,
    fun n => ?_, ?_, fun e => ⟨e.pairwise_missing s, fun n => ?_⟩, fun ms' hms' hapart => ?_⟩
  · rw [offer_fst_eq_true_iff]
    exact ⟨fun h a ha => h a (hperm.mem_iff.mpr ha), fun h a ha => h a (hperm.mem_iff.mp ha)⟩
  · simp only [overlaps_eq_true_iff, hperm.mem_iff]
  · simp only [contains_eq_true_iff, hperm.mem_iff]
  · rw [isEmpty, List.isEmpty_iff]
    exact ⟨fun h => (h ▸ hperm).nil_eq.symm, fun h => (h ▸ hperm).eq_nil⟩
  · rw [ExpectedVerses.mem_missing, mem_iff]
    simp only [hperm.mem_iff, not_exists, not_and]
  · have hnone : ∀ a ∈ (∅ : VerseSet).spans, ∀ m ∈ ms, a.Apart m :=
      fun a ha => absurd ha List.not_mem_nil
    have hall : held = ms := taken_eq_self hapart hnone
    have hapart' : ms'.Pairwise Apart := hms'.pairwise hapart Apart.symm
    have hperm' : (offerAll ∅ ms').spans.Perm ms' := by
      have h := perm_spans_offerAll ∅ ms'
      rwa [taken_eq_self hapart' fun a ha => absurd ha List.not_mem_nil] at h
    refine ⟨hall, eq_of_perm ?_⟩
    exact hperm'.trans (hms'.symm.trans ((List.Perm.of_eq hall.symm).trans hperm.symm))

end Passage.VerseSet
