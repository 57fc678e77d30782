import Mathlib.Data.List.TakeWhile
import Passage.Proofs.Style.Regions
import Passage.Proofs.Styled.Refused
import Passage.Styled.Search

/-! Lookups in a held text. Halving finds the mark over an offset because the marks come in the
order of their ranges (`WellFormed.seekStyles?_eq`), and that mark has the styles of every character
whose bytes it covers. The tap targets are those marks that have any, each with the least of its
styles, so both views agree at every offset (`lookups_agree`). -/

namespace Passage

/-! ## Halving -/

section
variable {α : Type} {p : α → Bool} {xs front back : List α}

theorem any_getElem?_append (hfront : ∀ a ∈ front, p a = true) (hback : ∀ a ∈ back, p a = false)
    (i : Nat) : (front ++ back)[i]?.any p = true ↔ i < front.length := by
  by_cases hi : i < front.length
  · rw [List.getElem?_append_left hi, List.getElem?_eq_getElem hi, Option.any_some]
    simp [hi, hfront _ (List.getElem_mem hi)]
  · rw [List.getElem?_append_right (Nat.le_of_not_lt hi)]
    simp only [hi, iff_false, Bool.not_eq_true]
    cases hget : back[i - front.length]? with
    | none => rfl
    | some a => exact hback a (List.mem_of_getElem? hget)

/-- The part that is searched never loses the place where the predicate ceases to hold. -/
theorem seekFrom_append (hfront : ∀ a ∈ front, p a = true) (hback : ∀ a ∈ back, p a = false)
    {base size : Nat} (hlo : base ≤ front.length) (hhi : front.length ≤ base + size) :
    seekFrom p (front ++ back) base size = front.length := by
  -- what is kept is that the place lies between `base` and `base + size`
  fun_induction seekFrom p (front ++ back) base size with
  | case1 base size hsize half hany ih =>
    have hhalf : half = size / 2 := rfl
    have := (any_getElem?_append hfront hback (base + half)).mp hany
    exact ih (by omega) (by omega)
  | case2 base size hsize half hany ih =>
    have hhalf : half = size / 2 := rfl
    have := mt (any_getElem?_append hfront hback (base + half)).mpr hany
    exact ih (by omega) (by omega)
  | case3 base size hsize hany =>
    have := (any_getElem?_append hfront hback base).mp hany
    omega
  | case4 base size hsize hany =>
    have := mt (any_getElem?_append hfront hback base).mpr hany
    omega

theorem seek_append (hfront : ∀ a ∈ front, p a = true) (hback : ∀ a ∈ back, p a = false) :
    seek p (front ++ back) = front.length :=
  seekFrom_append hfront hback (Nat.zero_le _) (by rw [List.length_append]; omega)

theorem eq_false_of_mem_dropWhile (h : xs.Pairwise fun a b => p b = true → p a = true) :
    ∀ a ∈ xs.dropWhile p, p a = false := by
  induction xs with
  | nil => exact fun _ ha => absurd ha List.not_mem_nil
  | cons x xs ih =>
    obtain ⟨hx, hxs⟩ := List.pairwise_cons.mp h
    cases hp : p x with
    | true =>
      rw [List.dropWhile_cons_of_pos hp]
      exact ih hxs
    | false =>
      rw [List.dropWhile_cons_of_neg (by simp [hp])]
      refine List.forall_mem_cons.mpr ⟨hp, fun b hb => ?_⟩
      rw [← Bool.not_eq_true]
      intro hpb
      rw [hx b hb hpb] at hp
      cases hp

/-- **Halving finds the first item that a predicate does not hold of**, if it holds of none of
those after it. -/
theorem drop_seek (h : xs.Pairwise fun a b => p b = true → p a = true) :
    xs.drop (seek p xs) = xs.dropWhile p := by
  have hfront : ∀ a ∈ xs.takeWhile p, p a = true := fun _ ha => List.mem_takeWhile_imp ha
  have hseek := seek_append hfront (eq_false_of_mem_dropWhile h)
  have hdrop : (xs.takeWhile p ++ xs.dropWhile p).drop
      (seek p (xs.takeWhile p ++ xs.dropWhile p)) = xs.dropWhile p := by
    rw [hseek, List.drop_left]
  rwa [List.takeWhile_append_dropWhile] at hdrop

end

/-! ## The mark over an offset -/

def Span.Covers (s : Span) (offset : Nat) : Prop :=
  s.start ≤ offset ∧ offset < s.stop

theorem Span.Covers.of_holds {s p : Span} {o : Nat} (h : s.holds p = true) (ho : p.Covers o) :
    s.Covers o := by
  rw [Span.holds, Bool.and_eq_true, decide_eq_true_eq, decide_eq_true_eq] at h
  exact ⟨Nat.le_trans h.1 ho.1, Nat.lt_of_lt_of_le ho.2 h.2⟩

namespace RangedText

variable {t : RangedText} {m n : Mark} {o : Nat} {styles : StyleSet}

theorem WellFormed.ordered (h : t.WellFormed) :
    t.marks.Pairwise fun m n => m.range.stop ≤ n.range.start :=
  h.contiguous.ordered h.nonempty

/-- The marks that end by an offset come first, so halving finds the first of the others. -/
theorem WellFormed.drop_seek (h : t.WellFormed) (o : Nat) :
    t.marks.drop (seek (·.range.stop ≤ o) t.marks) = t.marks.dropWhile (·.range.stop ≤ o) := by
  refine Passage.drop_seek (h.ordered.imp_of_mem fun {m n} _ hn hmn hle => ?_)
  have := h.nonempty n hn
  rw [decide_eq_true_eq] at hle ⊢
  omega

theorem WellFormed.seekStyles?_eq (h : t.WellFormed) (o : Nat) :
    t.seekStyles? o = t.stylesAt? o := by
  rw [seekStyles?, stylesAt?, ← h.drop_seek, List.head?_drop]

/-- A slice starts with the mark that halving finds. -/
theorem WellFormed.marksIn_eq (h : t.WellFormed) (s : Span) :
    t.marksIn s = (t.marks.drop (seek (·.range.stop ≤ s.start) t.marks)).takeWhile
      (·.range.start < s.stop) := by
  rw [marksIn, h.drop_seek]

theorem exists_mark_of_stylesAt? (h : t.stylesAt? o = some styles) :
    ∃ m ∈ t.marks, m.range.Covers o ∧ m.styles = styles := by
  obtain ⟨m, hm, rfl⟩ := Option.map_eq_some_iff.mp h
  obtain ⟨hhead, hin⟩ := Option.filter_eq_some_iff.mp hm
  rw [Bool.and_eq_true, decide_eq_true_eq, decide_eq_true_eq] at hin
  exact ⟨m, (List.dropWhile_sublist _).subset (List.mem_of_head? hhead), hin, rfl⟩

/-- The marks before a mark end where it starts or earlier, those after it start where it ends or
later. -/
theorem WellFormed.exists_around (h : t.WellFormed) (hm : m ∈ t.marks) :
    ∃ front back, t.marks = front ++ m :: back ∧ (∀ n ∈ front, n.range.stop ≤ m.range.start) ∧
      ∀ n ∈ back, m.range.stop ≤ n.range.start := by
  obtain ⟨front, back, hsplit⟩ := List.append_of_mem hm
  have hordered := h.ordered
  rw [hsplit, List.pairwise_append, List.pairwise_cons] at hordered
  obtain ⟨-, ⟨hback, -⟩, hfront⟩ := hordered
  exact ⟨front, back, hsplit, fun n hn => hfront n hn m List.mem_cons_self, hback⟩

theorem WellFormed.eq_of_covers (h : t.WellFormed) (hm : m ∈ t.marks) (hn : n ∈ t.marks)
    (hmo : m.range.Covers o) (hno : n.range.Covers o) : n = m := by
  obtain ⟨front, back, hsplit, hfront, hback⟩ := h.exists_around hm
  rw [hsplit, List.mem_append, List.mem_cons] at hn
  rcases hn with hn | rfl | hn
  · exact absurd (Nat.le_trans (hfront n hn) hmo.1) (Nat.not_le.mpr hno.2)
  · rfl
  · exact absurd (Nat.le_trans (hback n hn) hno.1) (Nat.not_le.mpr hmo.2)

/-- A mark gives its styles to every offset in its range. -/
theorem WellFormed.stylesAt?_of_covers (h : t.WellFormed) (hm : m ∈ t.marks)
    (ho : m.range.Covers o) : t.stylesAt? o = some m.styles := by
  obtain ⟨front, back, hsplit, hfront, -⟩ := h.exists_around hm
  have hpassed : ∀ n ∈ front, decide (n.range.stop ≤ o) = true := fun n hn =>
    decide_eq_true (Nat.le_trans (hfront n hn) ho.1)
  have hhead : (t.marks.dropWhile (·.range.stop ≤ o)).head? = some m := by
    rw [hsplit, List.dropWhile_append_of_pos hpassed, List.dropWhile_cons_of_neg, List.head?_cons]
    simpa using ho.2
  simp [stylesAt?, hhead, Option.filter, ho.1, ho.2]

/-- Every byte of the text has a mark. -/
theorem exists_mark_covers (t : StyledText) (ho : o < Text.byteLength t.text) :
    ∃ m ∈ t.ranged.marks, m.range.Covers o := by
  have hend : o < 0 + Text.byteLength (t.runs.flatMap Run.text) := by rwa [Nat.zero_add]
  obtain ⟨p, hp, hplace⟩ := Run.exists_mem_placedFrom (Nat.zero_le o) hend
  exact ⟨_, List.mem_map_of_mem hp, hplace⟩

/-- Past the end of the text there is no mark. -/
theorem WellFormed.stylesAt?_eq_none (h : t.WellFormed) (ho : Text.byteLength t.text ≤ o) :
    t.stylesAt? o = none := by
  rw [Option.eq_none_iff_forall_ne_some]
  intro styles hs
  obtain ⟨m, hm, hmo, -⟩ := exists_mark_of_stylesAt? hs
  obtain ⟨front, back, htext, hstop⟩ := (h.boundaries m hm).2
  rw [htext, Text.byteLength_append] at ho
  have := hmo.2
  omega

/-- A character lies in a mark, whose styles are found at each of its bytes. -/
theorem exists_mark_holds (t : StyledText) {p : Span × StyledChar} (hp : p ∈ t.ranged.placedChars) :
    ∃ m ∈ t.ranged.marks, m.range.holds p.1 = true ∧ m.styles = p.2.2 ∧
      ∀ o, p.1.Covers o → t.ranged.stylesAt? o = some p.2.2 := by
  rw [placedChars_ranged] at hp
  obtain ⟨q, hq, hstyles⟩ := Run.filter_holds_placedFrom hp
  obtain ⟨hq, hholds⟩ := List.mem_filter.mp (hq ▸ List.mem_singleton_self q)
  have hm : (⟨q.1, q.2.styles⟩ : Mark) ∈ t.ranged.marks := List.mem_map_of_mem hq
  refine ⟨_, hm, hholds, hstyles, fun o ho => ?_⟩
  rw [(wellFormed_ranged t).stylesAt?_of_covers hm (ho.of_holds hholds), hstyles]

/-- Seeking by halving in the held form is looking up among the runs. -/
theorem seekStyles?_ranged (t : StyledText) (o : Nat) :
    t.ranged.seekStyles? o = t.stylesAt? o := by
  have hw := wellFormed_ranged t
  rw [hw.seekStyles?_eq, StyledText.stylesAt?]
  cases hfind : t.placed.find? fun p => p.1.start ≤ o && o < p.1.stop with
  | none =>
    rw [Option.map_none, Option.eq_none_iff_forall_ne_some]
    intro styles hs
    obtain ⟨m, hm, ho, -⟩ := exists_mark_of_stylesAt? hs
    obtain ⟨p, hp, rfl⟩ := List.mem_map.mp hm
    have hout := List.find?_eq_none.mp hfind p hp
    simp only [Bool.and_eq_true, decide_eq_true_eq] at hout
    exact hout ho
  | some p =>
    have hin := List.find?_some hfind
    rw [Bool.and_eq_true, decide_eq_true_eq, decide_eq_true_eq] at hin
    exact hw.stylesAt?_of_covers (List.mem_map_of_mem (List.mem_of_find?_eq_some hfind)) hin

/-! ## The tap targets -/

theorem regions_eq (t : RangedText) :
    t.regions = t.marks.filterMap fun m => m.styles.regions.head?.map (m.range, ·) := by
  simp only [regions, StyleSet.regions, List.head?_filterMap]

theorem regions_ranged (t : StyledText) : t.ranged.regions = t.regions := by
  rw [regions_eq, StyledText.ranged, Run.marksFrom, List.filterMap_map]
  rfl

/-- The tap targets are the marks that have any, each with its least one. -/
theorem forall₂_regions (t : RangedText) :
    List.Forall₂ (fun p m => p.1 = m.range ∧ m.styles.LeastTarget p.2) t.regions
      (t.marks.filter fun m => m.styles.Tappable) := by
  rw [regions_eq]
  induction t.marks with
  | nil => exact .nil
  | cons m marks ih =>
    cases hfirst : m.styles.regions.head? with
    | none =>
      have hnone : ¬ m.styles.Tappable := by simp [StyleSet.tappable_iff, hfirst]
      rwa [List.filterMap_cons_none (by rw [hfirst, Option.map_none]),
        List.filter_cons_of_neg (by simpa using hnone)]
    | some region =>
      have hsome : m.styles.Tappable := by simp [StyleSet.tappable_iff, hfirst]
      rw [List.filterMap_cons_some (by rw [hfirst, Option.map_some]),
        List.filter_cons_of_pos (by simpa using hsome)]
      exact .cons ⟨rfl, StyleSet.head?_regions_eq_some_iff.mp hfirst⟩ ih

theorem mem_regions_iff {span : Span} {region : Region} :
    (span, region) ∈ t.regions ↔ ∃ m ∈ t.marks, m.range = span ∧ m.styles.LeastTarget region := by
  rw [regions_eq, List.mem_filterMap]
  simp only [Option.map_eq_some_iff, Prod.mk.injEq, StyleSet.head?_regions_eq_some_iff]
  constructor
  · rintro ⟨m, hm, first, hleast, rfl, rfl⟩
    exact ⟨m, hm, rfl, hleast⟩
  · rintro ⟨m, hm, rfl, hleast⟩
    exact ⟨m, hm, region, hleast, rfl, rfl⟩

/-- The styles at each offset of a reported range have its target. -/
theorem exists_styles_of_mem_regions (h : t.WellFormed) {p : Span × Region} (hp : p ∈ t.regions)
    (ho : p.1.Covers o) : ∃ styles, t.stylesAt? o = some styles ∧ .clickable p.2 ∈ styles := by
  obtain ⟨m, hm, hrange, hleast⟩ := mem_regions_iff.mp hp
  exact ⟨m.styles, h.stylesAt?_of_covers hm (hrange ▸ ho), hleast.1⟩

/-- No target is at an offset outside the reported ranges. -/
theorem not_tappable_of_not_covers (ho : ∀ p ∈ t.regions, ¬ p.1.Covers o)
    (hs : t.stylesAt? o = some styles) : ¬ styles.Tappable := by
  obtain ⟨m, hm, hmo, rfl⟩ := exists_mark_of_stylesAt? hs
  intro htap
  obtain ⟨first, hfirst⟩ := Option.isSome_iff_exists.mp (StyleSet.tappable_iff.mp htap)
  have hleast := StyleSet.head?_regions_eq_some_iff.mp hfirst
  exact ho (m.range, first) (mem_regions_iff.mpr ⟨m, hm, rfl, hleast⟩) hmo

/-- **Lookups agree with the marks** of a reachable text, at every byte offset. Halving finds the
styles of the one mark over an offset, also inside a character, and none at the end of the text or
past it. The tap targets are the marks that have any, in order, each with the least one; at the
offsets of their ranges the styles have that target, and at all others none. -/
theorem lookups_agree {t : RangedText} (h : Reachable t) :
    (∀ o, o < Text.byteLength t.text → ∃ m ∈ t.marks,
        (∀ n ∈ t.marks, n.range.Covers o ↔ n = m) ∧ t.seekStyles? o = some m.styles) ∧
      (∀ o, Text.byteLength t.text ≤ o → t.seekStyles? o = none) ∧
      (∀ p ∈ t.placedChars, ∃ m ∈ t.marks, m.range.holds p.1 = true ∧ m.styles = p.2.2 ∧
        ∀ o, p.1.Covers o → t.seekStyles? o = some p.2.2) ∧
      List.Forall₂ (fun p m => p.1 = m.range ∧ m.styles.LeastTarget p.2) t.regions
        (t.marks.filter fun m => m.styles.Tappable) ∧
      (∀ p ∈ t.regions, p.1.start < p.1.stop) ∧
      t.regions.Pairwise (fun p q => p.1.stop ≤ q.1.start) ∧
      (∀ p ∈ t.regions, ∀ o, p.1.Covers o →
        ∃ styles, t.seekStyles? o = some styles ∧ .clickable p.2 ∈ styles) ∧
      ∀ o, (∀ p ∈ t.regions, ¬ p.1.Covers o) →
        ∀ styles, t.seekStyles? o = some styles → ¬ styles.Tappable := by
  obtain ⟨t, rfl⟩ := reachable_iff.mp h
  have hw := wellFormed_ranged t
  simp only [hw.seekStyles?_eq]
  refine ⟨fun o ho => ?_, fun o ho => hw.stylesAt?_eq_none ho, fun p hp => exists_mark_holds t hp,
    forall₂_regions _, fun p hp => ?_, ?_,
    fun p hp o ho => exists_styles_of_mem_regions hw hp ho,
    fun o ho styles hs => not_tappable_of_not_covers ho hs⟩
  · obtain ⟨m, hm, hmo⟩ := exists_mark_covers t ho
    refine ⟨m, hm, fun n hn => ⟨hw.eq_of_covers hm hn hmo, ?_⟩, hw.stylesAt?_of_covers hm hmo⟩
    rintro rfl
    exact hmo
  · obtain ⟨m, hm, hrange, -⟩ := mem_regions_iff.mp hp
    rw [← hrange]
    exact hw.nonempty m hm
  · rw [regions_ranged]
    exact t.pairwise_regions

/-- At the second byte of a character that has three targets, of which the last one put in is the
least by its bytes. -/
theorem lookups_agree_inside_character :
    let styles : StyleSet := .ofList
      [.clickable ⟨.note, "a"⟩, .clickable ⟨.verse, "ö"⟩, .clickable ⟨.verse, "o"⟩, .bold]
    let t := ((plain ['a']).push ['é'] styles).push ['b'] (.ofList [.italic])
    t.seekStyles? 2 = some styles ∧ t.seekStyles? 4 = none ∧
      t.regions = [(⟨1, 3⟩, ⟨.verse, "o"⟩)] ∧ styles.LeastTarget ⟨.verse, "o"⟩ ∧
      ∀ found, t.seekStyles? 3 = some found → ¬ found.Tappable := by
  intro styles t
  have ht : Reachable t := .pushStyled _ _ (.pushStyled _ _ (.plain _))
  obtain ⟨-, hend, hchars, htargets, -, -, -, hout⟩ := lookups_agree ht
  have hchar : (⟨1, 3⟩, 'é', styles) ∈ t.placedChars := by decide +kernel
  have hregions : t.regions = [(⟨1, 3⟩, ⟨.verse, "o"⟩)] := by decide +kernel
  have htapped : t.marks.filter (fun m => m.styles.Tappable) = [⟨⟨1, 3⟩, styles⟩] := by
    decide +kernel
  obtain ⟨-, -, -, -, hfound⟩ := hchars _ hchar
  rw [hregions, htapped] at htargets
  refine ⟨hfound 2 ⟨by decide, by decide⟩, hend 4 (by decide), hregions,
    (List.forall₂_cons.mp htargets).1.2, hout 3 ?_⟩
  rw [hregions]
  exact List.forall_mem_singleton.mpr fun hin => absurd hin.2 (by decide)

end RangedText

end Passage
