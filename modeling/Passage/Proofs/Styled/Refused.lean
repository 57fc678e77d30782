import Passage.Proofs.Styled.Reachable

/-! Which slices are refused. A slice reads the text of each run that it meets, so it cuts the text
where it starts and where it ends, unless it has no bytes of the text (`boundary_of_slice?`). Where
these two offsets are boundaries it succeeds; how the text is divided into runs does not matter
(`slices_total`). -/

namespace Passage

namespace Text

/-- What is read as a span of bytes starts and ends between two characters. -/
theorem boundary_of_sliceBytes? {s : Span} {cs mid : List Char} (hle : s.start ≤ s.stop)
    (h : sliceBytes? s cs = some mid) : Boundary s.start cs ∧ Boundary s.stop cs := by
  obtain ⟨rest, hrest, hmid⟩ := Option.bind_eq_some_iff.mp h
  obtain ⟨front, rfl, hfront⟩ := exists_front_of_dropBytes? hrest
  obtain ⟨back, rfl, hlen⟩ := exists_back_of_takeBytes? hmid
  refine ⟨⟨front, mid ++ back, rfl, hfront⟩, ⟨front ++ mid, back, by rw [List.append_assoc], ?_⟩⟩
  rw [byteLength_append]
  omega

/-- Offsets at the end of a text or past it are clear of it. -/
theorem clear_of_boundary {n : Nat} {cs : List Char} (h : n < byteLength cs → Boundary n cs) :
    Clear n cs := by
  rcases Nat.lt_trichotomy n (byteLength cs) with hlt | rfl | hgt
  · exact (h hlt).clear
  · exact Boundary.clear ⟨cs, [], by rw [List.append_nil], rfl⟩
  · exact clear_iff.mpr (.inr hgt)

end Text

/-- Every byte of a text belongs to a run. -/
theorem Run.exists_mem_placedFrom {offset o : Nat} {rs : List Run} (hlo : offset ≤ o)
    (hhi : o < offset + Text.byteLength (rs.flatMap Run.text)) :
    ∃ p ∈ placedFrom offset rs, p.1.start ≤ o ∧ o < p.1.stop := by
  induction rs generalizing offset with
  | nil => exact absurd hhi (Nat.not_lt.mpr hlo)
  | cons r rs ih =>
    rw [List.flatMap_cons, Text.byteLength_append, ← Nat.add_assoc] at hhi
    by_cases hin : o < offset + Text.byteLength r.text
    · exact ⟨_, List.mem_cons_self, hlo, hin⟩
    · obtain ⟨p, hp, hplace⟩ := ih (Nat.le_of_not_lt hin) hhi
      exact ⟨p, List.mem_cons_of_mem _ hp, hplace⟩

namespace RangedText

variable {t : StyledText} {s : Span}

/-- The bytes that a slice takes from a run are read in the text. -/
theorem boundaries_of_slice? {u : RangedText} (h : t.ranged.slice? s = some u) {p : Span × Run}
    (hp : p ∈ t.placed) (hlt : max p.1.start s.start < min p.1.stop s.stop) :
    Text.Boundary (max p.1.start s.start) t.text ∧
      Text.Boundary (min p.1.stop s.stop) t.text := by
  have hrun : Run.sliceBytes? s p.1 p.2 ≠ none := by
    intro hnone
    rw [ranged_slice?, StyledText.slice?, mapM_eq_none hp hnone] at h
    cases h
  rw [← runIn?_ranged hp, runIn?] at hrun
  simp only [if_pos hlt, ne_eq, Option.map_eq_none_iff] at hrun
  obtain ⟨mid, hmid⟩ := Option.ne_none_iff_exists'.mp hrun
  exact Text.boundary_of_sliceBytes? (Nat.le_of_lt hlt) hmid

/-- A slice that has bytes of the text starts between two characters, and ends between two or past
the text. -/
theorem boundary_of_slice? {u : RangedText} (h : t.ranged.slice? s = some u)
    (hlt : s.start < s.stop) (hstart : s.start < Text.byteLength t.text) :
    Text.Boundary s.start t.text ∧
      (s.stop ≤ Text.byteLength t.text → Text.Boundary s.stop t.text) := by
  have covered {o : Nat} (ho : o < Text.byteLength t.text) :
      ∃ p ∈ t.placed, p.1.start ≤ o ∧ o < p.1.stop :=
    Run.exists_mem_placedFrom (Nat.zero_le o) (by rwa [Nat.zero_add])
  refine ⟨?_, fun hstop => ?_⟩
  · -- the run that has the first byte of the slice is cut at its start
    obtain ⟨p, hp, hle, hin⟩ := covered hstart
    have hcut := (boundaries_of_slice? h hp (by omega)).1
    rwa [Nat.max_eq_right hle] at hcut
  · -- the run that has the last byte of the slice is cut at its end
    obtain ⟨p, hp, hle, hin⟩ := covered (o := s.stop - 1) (by omega)
    have hcut := (boundaries_of_slice? h hp (by omega)).2
    rwa [Nat.min_eq_right (by omega)] at hcut

/-- A slice that has no bytes of the text is empty, and cuts nothing. -/
theorem slice?_of_outside (h : s.stop ≤ s.start ∨ Text.byteLength t.text ≤ s.start) :
    t.ranged.slice? s = some ∅ := by
  have hrun : ∀ p ∈ t.placed, Run.sliceBytes? s p.1 p.2 = some [] := by
    intro p hp
    obtain ⟨front, back, htext, hplace⟩ := Run.exists_text_of_mem_placedFrom hp
    have htext : t.text = front ++ (p.2.text ++ back) := htext
    have hstop := (Run.place_of_mem_placedFrom hp).2
    rw [htext, Text.byteLength_append, Text.byteLength_append] at h
    exact if_neg (by omega)
  obtain ⟨out, hout, hnil⟩ := Option.map_eq_some_iff.mp (mapM_eq_nil hrun)
  rw [ranged_slice?, StyledText.slice?, hout, Option.map_some, hnil]
  rfl

theorem slice?_eq_none_iff : t.ranged.slice? s = none ↔
    s.start < s.stop ∧ s.start < Text.byteLength t.text ∧
      (¬ Text.Boundary s.start t.text ∨
        s.stop < Text.byteLength t.text ∧ ¬ Text.Boundary s.stop t.text) := by
  constructor
  · intro h
    have hinside : ¬ (s.stop ≤ s.start ∨ Text.byteLength t.text ≤ s.start) := by
      intro ho
      rw [slice?_of_outside ho] at h
      cases h
    refine ⟨by omega, by omega, ?_⟩
    by_contra hcut
    simp only [not_or, not_and, not_not] at hcut
    obtain ⟨u, hu, -⟩ := slice?_of_clear t hcut.1.clear (Text.clear_of_boundary hcut.2)
    rw [hu] at h
    cases h
  · rintro ⟨hlt, hstart, hcut⟩
    by_contra hsome
    obtain ⟨u, hu⟩ := Option.ne_none_iff_exists'.mp hsome
    obtain ⟨hfirst, hlast⟩ := boundary_of_slice? hu hlt hstart
    exact hcut.elim (absurd hfirst) fun hstop => hstop.2 (hlast (Nat.le_of_lt hstop.1))

/-- A slice has the characters in its span, which may end past the text. -/
theorem chars_slice? {u : RangedText} (h : t.ranged.slice? s = some u) :
    u.chars = (t.ranged.placedChars.filter fun p =>
      (⟨s.start, min s.stop (Text.byteLength t.text)⟩ : Span).holds p.1).map Prod.snd := by
  have hbounds : ∀ p ∈ t.ranged.placedChars,
      p.1.start < p.1.stop ∧ p.1.stop ≤ Text.byteLength t.text := by
    intro p hp
    obtain ⟨q, hq, rfl⟩ := List.mem_map.mp hp
    obtain ⟨-, hlt, hle⟩ := Text.bounds_of_mem_placedFrom hq
    rw [StyledText.text_ranged, Nat.zero_add] at hle
    exact ⟨hlt, hle⟩
  by_cases hout : s.stop ≤ s.start ∨ Text.byteLength t.text ≤ s.start
  · obtain rfl : ∅ = u := Option.some.inj ((slice?_of_outside hout).symm.trans h)
    rw [List.filter_eq_nil_iff.mpr]
    · rfl
    · intro p hp
      have := hbounds p hp
      simp only [Span.holds, Bool.and_eq_true, decide_eq_true_eq]
      omega
  · obtain ⟨hstart, hstop⟩ := boundary_of_slice? h (by omega) (by omega)
    obtain ⟨v, hv, hchars⟩ := slice?_of_clear t hstart.clear
      (Text.clear_of_boundary fun hlt => hstop (Nat.le_of_lt hlt))
    obtain rfl : v = u := Option.some.inj (hv.symm.trans h)
    rw [hchars]
    refine congrArg (List.map Prod.snd) (List.filter_congr fun p hp => ?_)
    have := hbounds p hp
    rw [Bool.eq_iff_iff]
    simp only [Span.holds, Bool.and_eq_true, decide_eq_true_eq]
    omega

/-- **Which slices are refused.** A slice of a reachable text is refused exactly if it has bytes of
the text and starts inside a character, or ends inside one. Otherwise it has the styled characters
that lie between its offsets, up to the end of the text. So it is empty where it ends before it
starts or starts past the text, also at offsets inside a character. -/
theorem slices_total {t : RangedText} (h : Reachable t) (a b : Nat) :
    let n := Text.byteLength t.text
    (t.slice? ⟨a, b⟩ = none ↔ a < b ∧ a < n ∧
        (¬ Text.Boundary a t.text ∨ b < n ∧ ¬ Text.Boundary b t.text)) ∧
      (∀ u, t.slice? ⟨a, b⟩ = some u → u.chars =
        (t.placedChars.filter fun p => (⟨a, min b n⟩ : Span).holds p.1).map Prod.snd) ∧
      (b ≤ a ∨ n ≤ a → t.slice? ⟨a, b⟩ = some ∅) := by
  intro n
  obtain ⟨t, rfl⟩ := reachable_iff.mp h
  exact ⟨slice?_eq_none_iff, fun u hu => chars_slice? hu, fun hout => slice?_of_outside hout⟩

/-- Slices at the offset inside a character: one has bytes of the text, one has none. -/
theorem slices_total_inside_character :
    let t := (plain ['a', 'é']).push ['b'] (.ofList [.bold])
    t.slice? ⟨2, 9⟩ = none ∧ t.slice? ⟨2, 2⟩ = some ∅ := by
  intro t
  have ht : Reachable t := .pushStyled _ _ (.plain _)
  obtain ⟨hnone, -, -⟩ := slices_total ht 2 9
  obtain ⟨-, -, hempty⟩ := slices_total ht 2 2
  exact ⟨hnone.mpr ⟨by decide, by decide, .inl fun h => absurd h.clear (by decide)⟩,
    hempty (.inl (Nat.le_refl 2))⟩

end RangedText

end Passage
