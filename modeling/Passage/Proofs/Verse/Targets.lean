import Passage.Proofs.Styled.Placed
import Passage.Proofs.Verse.Accepted
import Passage.Proofs.Verse.Pins

/-! The verse targets of a text. In pinned text whose markers are all different, every label is a
run of its own: what comes right after it has another style. So the targets are the markers'
own, in order, and each covers its label (`targets_of_pinned`). -/

namespace Passage

def Run.verseTarget? (r : Run) : Option Region :=
  r.styles.regions.head?.filter fun region => region.kind = .verse

namespace StyledText

def verseTargets (t : StyledText) : List (Span × Region) :=
  t.regions.filter fun p => p.2.kind = .verse

/-- What the payloads of the verse targets read as. -/
def verseMarkers (t : StyledText) : List (Except VerseError VerseMarker) :=
  t.verseTargets.map fun p => VerseMarker.parse p.2.payload.toList

/-- How many verse targets have a number. -/
def timesCovered (t : StyledText) (n : Nat) : Nat :=
  t.verseMarkers.countP fun
    | .ok m => n ∈ m
    | .error _ => false

end StyledText

namespace Pinned

variable {c : StyledChar} {cs : List StyledChar} {ms : List VerseMarker}

/-- Pinned text begins with a character that carries no verse, or with a label. -/
theorem cons_cases (h : Pinned (c :: cs) ms) :
    (c.2.Unpinned ∧ Pinned cs ms) ∨
      ∃ m rest ms', ms = m :: ms' ∧ c.2.regions = [m.region] ∧
        c :: cs = m.label.map (fun d => (d, c.2)) ++ rest ∧ Pinned rest ms' := by
  generalize he : c :: cs = ds at h
  cases h with
  | nil => cases he
  | free hc h =>
    obtain ⟨rfl, rfl⟩ := List.cons.inj he
    exact .inl ⟨hc, h⟩
  | @pin m s rest ms hs h =>
    obtain ⟨d, l, hl⟩ := List.exists_cons_of_ne_nil m.label_ne_nil
    have hcs := he
    rw [hl, List.map_cons, List.cons_append] at hcs
    obtain ⟨rfl, -⟩ := List.cons.inj hcs
    exact .inr ⟨m, rest, ms, rfl, hs, rfl, h⟩

theorem eq_nil (h : Pinned [] ms) : ms = [] := by
  generalize he : ([] : List StyledChar) = ds at h
  cases h with
  | nil => rfl
  | free => cases he
  | @pin m s rest ms hs h =>
    have hl := (List.append_eq_nil_iff.mp he.symm).1
    exact absurd (List.map_eq_nil_iff.mp hl) m.label_ne_nil

theorem of_append_unpinned {x : List Char} {s : StyleSet} (hs : s.Unpinned)
    (h : Pinned (x.map (fun c => (c, s)) ++ cs) ms) : Pinned cs ms := by
  induction x with
  | nil => exact h
  | cons d x ih =>
    rcases cons_cases h with ⟨-, h⟩ | ⟨m, -, -, -, hm, -⟩
    · exact ih h
    · exact absurd hs (VerseMarker.not_unpinned hm)

/-- A whole run that carries a verse is the label of the first marker. -/
theorem eq_label {x : List Char} {s : StyleSet} (hx : x ≠ []) (hs : ¬ s.Unpinned)
    (hcs : ∀ d ds, cs = d :: ds → d.2 ≠ s) (hn : (ms.map VerseMarker.region).Nodup)
    (h : Pinned (x.map (fun c => (c, s)) ++ cs) ms) :
    ∃ m ms', ms = m :: ms' ∧ s.regions = [m.region] ∧ x = m.label ∧ Pinned cs ms' := by
  obtain ⟨c, y, rfl⟩ := List.exists_cons_of_ne_nil hx
  rcases cons_cases h with ⟨hu, -⟩ | ⟨m, rest, ms', rfl, hm, he, hrest⟩
  · exact absurd hu hs
  · -- a second label under the same styles would have the same marker
    have hr : ∀ d ds, rest = d :: ds → d.2 ≠ s := by
      rintro d ds rfl rfl
      rcases cons_cases hrest with ⟨hu, -⟩ | ⟨k, _, _, rfl, hk, -⟩
      · exact hs hu
      · have hmk : m.region = k.region := List.singleton_injective (hm.symm.trans hk)
        simp [hmk] at hn
    have he : (c :: y).map (fun d => (d, s)) ++ cs = m.label.map (fun d => (d, s)) ++ rest := he
    obtain ⟨hl, rfl⟩ := Run.eq_of_same_style hcs hr he
    exact ⟨m, ms', rfl, hm, hl, hrest⟩

end Pinned

/-- A run with the text of a target lies where the target does. -/
def Covers (placed : List (Span × Run)) (p : Span × Region) : Prop :=
  ∃ r, (p.1, r) ∈ placed ∧ r.text ≠ [] ∧ r.text = p.2.payload.toList

/-- The runs that carry verses are the labels. -/
theorem targets_placedFrom {rs : List Run} {ms : List VerseMarker} (hc : Run.Canonical rs)
    (h : Pinned (Run.charsOf rs) ms) (hn : (ms.map VerseMarker.region).Nodup) (offset : Nat) :
    List.Forall₂ (fun p m => Covers (Run.placedFrom offset rs) p ∧ p.2 = m.region)
      ((Run.placedFrom offset rs).filterMap fun p => p.2.verseTarget?.map (p.1, ·)) ms := by
  induction rs generalizing offset ms with
  | nil =>
    rw [h.eq_nil]
    exact .nil
  | cons r rs ih =>
    have later {stop : Nat} {p : Span × Region} (hp : Covers (Run.placedFrom stop rs) p)
        (hstop : stop = offset + Text.byteLength r.text) :
        Covers (Run.placedFrom offset (r :: rs)) p := by
      obtain ⟨s, hs, ht⟩ := hp
      subst hstop
      exact ⟨s, List.mem_cons_of_mem _ hs, ht⟩
    rw [Run.charsOf_cons, Run.chars] at h
    by_cases hu : r.styles.Unpinned
    · have hv : r.verseTarget? = none := by
        rw [Run.verseTarget?, Option.filter_eq_none_iff]
        intro region hr
        simpa using hu region (List.mem_of_mem_head? hr)
      simp only [Run.placedFrom, List.filterMap_cons, hv, Option.map_none]
      exact (ih hc.tail (h.of_append_unpinned hu) hn _).imp fun p m hp => ⟨later hp.1 rfl, hp.2⟩
    · obtain ⟨m, ms', rfl, hm, ht, hrest⟩ :=
        h.eq_label hc.text_ne_nil hu (fun _ _ he => hc.head_styles_ne he) hn
      have hv : r.verseTarget? = some m.region := by
        rw [Run.verseTarget?, hm]
        rfl
      have hpayload : r.text = m.region.payload.toList := by
        rw [ht, VerseMarker.region, String.toList_ofList]
      simp only [Run.placedFrom, List.filterMap_cons, hv, Option.map_some]
      refine .cons ⟨⟨r, List.mem_cons_self, hc.text_ne_nil, hpayload⟩, rfl⟩ ?_
      exact (ih hc.tail hrest (List.nodup_cons.mp hn).2 _).imp
        fun p m hp => ⟨later hp.1 rfl, hp.2⟩

namespace StyledText

theorem verseTargets_eq (t : StyledText) :
    t.verseTargets = t.placed.filterMap fun p => p.2.verseTarget?.map (p.1, ·) := by
  rw [verseTargets, regions, List.filter_filterMap]
  congr
  funext p
  rw [Run.verseTarget?]
  cases p.2.styles.regions.head? with
  | none => rfl
  | some region => cases hk : decide (region.kind = .verse) <;> simp_all [Option.filter]

/-- **The verse targets of pinned text are its markers' own, and each covers its label.** -/
theorem targets_of_pinned {t : StyledText} {ms : List VerseMarker} (h : Pinned t.chars ms)
    (hn : (ms.map VerseMarker.region).Nodup) :
    t.verseTargets.map Prod.snd = ms.map VerseMarker.region ∧
      ∀ p ∈ t.verseTargets, (t.slice? p.1).map text = some p.2.payload.toList := by
  have hall := targets_placedFrom t.canonical h hn 0
  change List.Forall₂ _ (t.placed.filterMap _) ms at hall
  rw [← verseTargets_eq, List.forall₂_and_left] at hall
  obtain ⟨hcovers, hregions⟩ := hall
  constructor
  · rw [← List.forall₂_eq_eq_eq, List.forall₂_map_left_iff, List.forall₂_map_right_iff]
    exact hregions
  · intro p hp
    obtain ⟨r, hr, hne, htext⟩ := hcovers p hp
    have hs : t.slice? p.1 = some (.styled r.text r.styles) := slice?_of_mem_placed hr hne
    rw [hs, Option.map_some, ← htext, text_eq_map_chars, chars_styled]
    simp [Function.comp_def]

theorem verseMarkers_of_pinned {t : StyledText} {ms : List VerseMarker} (h : Pinned t.chars ms)
    (hf : ∀ m ∈ ms, m.Fits) (ha : ms.Pairwise VerseMarker.Apart) :
    t.verseMarkers = ms.map .ok := by
  obtain ⟨hregions, -⟩ := targets_of_pinned h (VerseMarker.nodup_regions hf ha)
  have hparse : t.verseMarkers =
      (ms.map VerseMarker.region).map fun region => VerseMarker.parse region.payload.toList := by
    rw [← hregions, List.map_map]
    rfl
  rw [hparse, List.map_map]
  refine List.map_congr_left fun m hm => ?_
  rw [Function.comp_apply, VerseMarker.region, String.toList_ofList]
  exact VerseMarker.parse_label (hf m hm)

theorem timesCovered_of_pinned {t : StyledText} {ms : List VerseMarker} (h : Pinned t.chars ms)
    (hf : ∀ m ∈ ms, m.Fits) (ha : ms.Pairwise VerseMarker.Apart) (n : Nat) :
    t.timesCovered n = if ∃ m ∈ ms, n ∈ m then 1 else 0 := by
  rw [timesCovered, verseMarkers_of_pinned h hf ha, List.countP_map, ← VerseMarker.countP_mem ha]
  rfl

end StyledText

end Passage
