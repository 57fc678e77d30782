import Passage.Proofs.Styled.Lookup

/-! What can be built. A held text is reachable if some finite sequence of operations gives it from
nothing. Exactly the held forms of styled texts are reachable (`reachable_iff`), so every reachable
text is well formed (`reachable_wellFormed`) and is determined by its styled characters, on which
the operations are those of lists (`reachable_chars`). -/

namespace Passage.RangedText

/-- The texts that a finite sequence of operations can give; the texts put together are reachable
themselves. A slice or a map that fails gives nothing. -/
inductive Reachable : RangedText → Prop
  | empty : Reachable ∅
  | plain (cs : List Char) : Reachable (plain cs)
  | styled (cs : List Char) (attributes : List Attribute) : Reachable (styled cs attributes)
  | pushPlain {t : RangedText} (cs : List Char) : Reachable t → Reachable (t.push cs ∅)
  | pushStyled {t : RangedText} (cs : List Char) (attributes : List Attribute) :
      Reachable t → Reachable (t.push cs (.ofList attributes))
  | append {t u v : RangedText} : Reachable t → Reachable u → t.append? u = some v → Reachable v
  | prepend {t u v : RangedText} : Reachable t → Reachable u → t.prepend? u = some v → Reachable v
  | slice {t u : RangedText} (s : Span) : Reachable t → t.slice? s = some u → Reachable u
  | addStyles {t : RangedText} (attributes : List Attribute) :
      Reachable t → Reachable (t.addStyles attributes)
  | mapText {t u : RangedText} (f : List Char → List Char) :
      Reachable t → t.mapText? f = some u → Reachable u

theorem ofList_attributes (s : StyleSet) : StyleSet.ofList s.attributes = s := by
  refine StyleSet.ext_mem fun a => ?_
  rw [StyleSet.ofList, StyleSet.mem_insertAll]
  exact ⟨fun h => h.resolve_left List.not_mem_nil, .inr⟩

theorem Reachable.pushAll {t : RangedText} (h : Reachable t) (rs : List Run) :
    Reachable (t.pushAll rs) := by
  induction rs generalizing t with
  | nil => exact h
  | cons r rs ih =>
    have hr := h.pushStyled r.text r.styles.attributes
    rw [ofList_attributes] at hr
    exact ih hr

/-- **Reachable are the held forms of styled texts.** -/
theorem reachable_iff {t : RangedText} : Reachable t ↔ ∃ u : StyledText, u.ranged = t := by
  constructor
  · intro h
    induction h with
    | empty => exact ⟨∅, rfl⟩
    | plain cs => exact ⟨_, (ranged_push ∅ cs ∅).symm⟩
    | styled cs attributes => exact ⟨_, (ranged_push ∅ cs (.ofList attributes)).symm⟩
    | pushPlain cs _ ih =>
      obtain ⟨t, rfl⟩ := ih
      exact ⟨_, (ranged_push t cs ∅).symm⟩
    | pushStyled cs attributes _ ih =>
      obtain ⟨t, rfl⟩ := ih
      exact ⟨_, (ranged_push t cs (.ofList attributes)).symm⟩
    | append _ _ hv iht ihu =>
      obtain ⟨t, rfl⟩ := iht
      obtain ⟨u, rfl⟩ := ihu
      exact ⟨t ++ u, Option.some.inj ((ranged_append? t u).symm.trans hv)⟩
    | prepend _ _ hv iht ihu =>
      obtain ⟨t, rfl⟩ := iht
      obtain ⟨u, rfl⟩ := ihu
      exact ⟨u ++ t, Option.some.inj ((ranged_prepend? t u).symm.trans hv)⟩
    | slice s _ hu ih =>
      obtain ⟨t, rfl⟩ := ih
      rw [ranged_slice?] at hu
      obtain ⟨u, -, rfl⟩ := Option.map_eq_some_iff.mp hu
      exact ⟨u, rfl⟩
    | addStyles attributes _ ih =>
      obtain ⟨t, rfl⟩ := ih
      exact ⟨_, (ranged_addStyles t attributes).symm⟩
    | mapText f _ hu ih =>
      obtain ⟨t, rfl⟩ := ih
      exact ⟨t.mapText f, Option.some.inj ((ranged_mapText? f t).symm.trans hu)⟩
  · rintro ⟨u, rfl⟩
    have h := Reachable.empty.pushAll u.runs
    rwa [show (∅ : RangedText) = empty from rfl, pushAll_empty, StyledText.ofRuns_runs] at h

/-! ## Well-formed texts -/

/-- The ranges of the marks follow one another without gaps from `start` to `stop`. -/
def Tiles (start stop : Nat) : List Mark → Prop
  | [] => start = stop
  | m :: rest => m.range.start = start ∧ Tiles m.range.stop stop rest

/-- Every byte has a mark, no mark is empty or cuts a character, and neighbours differ in style. -/
structure WellFormed (t : RangedText) : Prop where
  nonempty : ∀ m ∈ t.marks, m.range.start < m.range.stop
  contiguous : Tiles 0 (Text.byteLength t.text) t.marks
  boundaries : ∀ m ∈ t.marks,
    Text.Boundary m.range.start t.text ∧ Text.Boundary m.range.stop t.text
  distinct : t.marks.IsChain fun m n => m.styles ≠ n.styles

theorem Tiles.start_le {start stop : Nat} {marks : List Mark} (h : Tiles start stop marks)
    (hne : ∀ m ∈ marks, m.range.start < m.range.stop) : ∀ m ∈ marks, start ≤ m.range.start := by
  induction marks generalizing start with
  | nil => exact fun m hm => absurd hm List.not_mem_nil
  | cons m rest ih =>
    obtain ⟨hm, hrest⟩ := List.forall_mem_cons.mp hne
    refine List.forall_mem_cons.mpr ⟨h.1.ge, fun n hn => ?_⟩
    have := ih h.2 hrest n hn
    have := h.1
    omega

/-- Marks that tile come in the order of their ranges. -/
theorem Tiles.ordered {start stop : Nat} {marks : List Mark} (h : Tiles start stop marks)
    (hne : ∀ m ∈ marks, m.range.start < m.range.stop) :
    marks.Pairwise fun m n => m.range.stop ≤ n.range.start := by
  induction marks generalizing start with
  | nil => exact .nil
  | cons m rest ih =>
    obtain ⟨-, hrest⟩ := List.forall_mem_cons.mp hne
    exact .cons (h.2.start_le hrest) (ih h.2 hrest)

theorem tiles_marksFrom (offset : Nat) (rs : List Run) :
    Tiles offset (offset + Text.byteLength (rs.flatMap Run.text)) (Run.marksFrom offset rs) := by
  induction rs generalizing offset with
  | nil => rfl
  | cons r rs ih =>
    rw [List.flatMap_cons, Text.byteLength_append, ← Nat.add_assoc]
    exact ⟨rfl, ih _⟩

theorem isChain_marksFrom {rs : List Run} (h : rs.IsChain fun r s => r.styles ≠ s.styles)
    (offset : Nat) : (Run.marksFrom offset rs).IsChain fun m n => m.styles ≠ n.styles := by
  have hrs : ((Run.marksFrom offset rs).map Mark.styles).IsChain (· ≠ ·) := by
    have hstyles : (Run.marksFrom offset rs).map Mark.styles = rs.map Run.styles := by
      conv_rhs => rw [← Run.map_snd_placedFrom offset rs]
      simp [Run.marksFrom, Function.comp_def]
    rw [hstyles, List.isChain_map]
    exact h
  rwa [List.isChain_map] at hrs

theorem wellFormed_ranged (t : StyledText) : t.ranged.WellFormed := by
  obtain ⟨hne, hchain⟩ := Run.canonical_iff.mp t.canonical
  have hplace : ∀ m ∈ t.ranged.marks, ∃ front mid back, mid ≠ [] ∧
      t.text = front ++ (mid ++ back) ∧ m.range.start = Text.byteLength front ∧
      m.range.stop = Text.byteLength front + Text.byteLength mid := by
    intro m hm
    obtain ⟨p, hp, rfl⟩ := List.mem_map.mp hm
    obtain ⟨front, back, htext, hstart⟩ := Run.exists_text_of_mem_placedFrom hp
    have hstop := (Run.place_of_mem_placedFrom hp).2
    have hmem : p.2 ∈ t.runs := StyledText.mem_runs_of_mem_placed hp
    rw [Nat.zero_add] at hstart
    exact ⟨front, p.2.text, back, hne p.2 hmem, htext, hstart, hstart ▸ hstop⟩
  refine ⟨fun m hm => ?_, ?_, fun m hm => ?_, isChain_marksFrom hchain 0⟩
  · obtain ⟨front, mid, back, hmid, -, hstart, hstop⟩ := hplace m hm
    have : Text.byteLength mid ≠ 0 := fun h => hmid (Text.byteLength_eq_zero_iff.mp h)
    omega
  · have h := tiles_marksFrom 0 t.runs
    rwa [Nat.zero_add] at h
  · obtain ⟨front, mid, back, -, htext, hstart, hstop⟩ := hplace m hm
    refine ⟨⟨front, mid ++ back, htext, hstart.symm⟩, ⟨front ++ mid, back, ?_, ?_⟩⟩
    · rw [List.append_assoc]
      exact htext
    · rw [Text.byteLength_append, hstop]

theorem WellFormed.text_eq_nil_iff {t : RangedText} (h : t.WellFormed) :
    t.text = [] ↔ t.marks = [] := by
  have hc := h.contiguous
  cases hm : t.marks with
  | nil =>
    rw [hm] at hc
    have hlen : Text.byteLength t.text = 0 := hc.symm
    simp [Text.byteLength_eq_zero_iff.mp hlen]
  | cons m rest =>
    have hmem : m ∈ t.marks := hm ▸ List.mem_cons_self
    obtain ⟨front, back, htext, hlen⟩ := (h.boundaries m hmem).2
    have := h.nonempty m hmem
    simp only [reduceCtorEq, iff_false]
    intro he
    rw [he] at htext
    rw [(List.append_eq_nil_iff.mp htext.symm).1] at hlen
    have hzero : Text.byteLength [] = 0 := rfl
    omega

/-- **Every text that operations can build is well formed.** So its marks come in the order in which
`marksIn` and `stylesAt?` search them, it has marks unless it is empty, and of the operations on it
only slices can fail. -/
theorem reachable_wellFormed {t : RangedText} (h : Reachable t) :
    t.WellFormed ∧ t.marks.Pairwise (fun m n => m.range.stop ≤ n.range.start) ∧
      (t.text = [] ↔ t.marks = []) ∧
      (∀ u, Reachable u → (t.append? u).isSome ∧ (t.prepend? u).isSome) ∧
      ∀ f, (t.mapText? f).isSome := by
  obtain ⟨t, rfl⟩ := reachable_iff.mp h
  have hw := wellFormed_ranged t
  refine ⟨hw, hw.contiguous.ordered hw.nonempty, hw.text_eq_nil_iff, fun u hu => ?_, fun f => ?_⟩
  · obtain ⟨u, rfl⟩ := reachable_iff.mp hu
    rw [ranged_append?, ranged_prepend?]
    exact ⟨rfl, rfl⟩
  · rw [ranged_mapText?]
    rfl

/-- A mark that comes to have the styles of the one before it is joined to it. -/
theorem addStyles_wellFormed_joined :
    let t := ((plain ['a', 'é']).push ['b'] (.ofList [.bold])).addStyles [.bold]
    t.WellFormed ∧ t.marks = [⟨⟨0, 4⟩, .ofList [.bold]⟩] :=
  ⟨(reachable_wellFormed (.addStyles _ (.pushStyled _ _ (.plain _)))).1, by decide⟩

/-! ## Styled characters -/

theorem slice?_of_clear (t : StyledText) {s : Span} (h1 : Text.Clear s.start t.text)
    (h2 : Text.Clear s.stop t.text) :
    ∃ v, t.ranged.slice? s = some v ∧
      v.chars = (t.ranged.placedChars.filter fun p => s.holds p.1).map Prod.snd := by
  obtain ⟨v, hv, hchars⟩ := StyledText.slice?_of_clear h1 h2
  refine ⟨v.ranged, ?_, ?_⟩
  · rw [ranged_slice?, hv, Option.map_some]
  · rw [chars_ranged, placedChars_ranged, hchars]

/-- The slices before and after a boundary, one after the other, are the text. -/
theorem append?_slices (t : StyledText) {n : Nat} (h : Text.Boundary n t.text) :
    ∃ front back, t.ranged.slice? ⟨0, n⟩ = some front ∧
      t.ranged.slice? ⟨n, Text.byteLength t.text⟩ = some back ∧
      front.append? back = some t.ranged := by
  obtain ⟨cs, ds, htext, rfl⟩ := h
  have hfront := @StyledText.slice?_part t [] cs ds htext
  have hback := @StyledText.slice?_part t cs ds [] (by rw [List.append_nil, htext])
  have hnil : Text.byteLength [] = 0 := rfl
  rw [hnil, List.length_nil, Nat.zero_add, Nat.zero_add] at hfront
  rw [← Text.byteLength_append, ← htext] at hback
  have hlen : t.chars.length = cs.length + ds.length := by
    rw [← StyledText.length_text, htext, List.length_append]
  have hhalves : t.extract ⟨0, cs.length⟩ ++ t.extract ⟨cs.length, cs.length + ds.length⟩ = t := by
    have hrest : (t.chars.drop cs.length).take ds.length = t.chars.drop cs.length :=
      List.take_of_length_le (by simp [hlen])
    simp [StyledText.eq_iff_chars, hrest]
  refine ⟨(t.extract ⟨0, cs.length⟩).ranged,
    (t.extract ⟨cs.length, cs.length + ds.length⟩).ranged, ?_, ?_, ?_⟩
  · rw [ranged_slice?, hfront, Option.map_some]
  · rw [ranged_slice?, hback, Option.map_some]
  · rw [ranged_append?, hhalves]

/-- **Reachable texts are lists of styled characters.** Texts with the same characters are equal,
and each operation does to the characters what its name says, however they are divided into
marks. -/
theorem reachable_chars {t u : RangedText} (ht : Reachable t) (hu : Reachable u) :
    (t = u ↔ t.chars = u.chars) ∧
      (∃ v, t.append? u = some v ∧ v.chars = t.chars ++ u.chars) ∧
      (∃ v, t.prepend? u = some v ∧ v.chars = u.chars ++ t.chars) ∧
      (∀ attributes, (t.addStyles attributes).chars =
        t.chars.map fun c => (c.1, c.2.insertAll attributes)) ∧
      (∀ s : Span, Text.Clear s.start t.text → Text.Clear s.stop t.text →
        ∃ v, t.slice? s = some v ∧
          v.chars = (t.placedChars.filter fun p => s.holds p.1).map Prod.snd) ∧
      (∀ (f : Char → List Char) (g : List Char → List Char), (∀ cs, g cs = cs.flatMap f) →
        ∃ v, t.mapText? g = some v ∧
          v.chars = t.chars.flatMap fun c => (f c.1).map fun d => (d, c.2)) ∧
      (∀ w, Reachable w →
        (t.append? u).bind (·.append? w) = (u.append? w).bind t.append?) ∧
      ∀ n, Text.Boundary n t.text →
        ∃ front back, t.slice? ⟨0, n⟩ = some front ∧
          t.slice? ⟨n, Text.byteLength t.text⟩ = some back ∧ front.append? back = some t := by
  obtain ⟨t, rfl⟩ := reachable_iff.mp ht
  obtain ⟨u, rfl⟩ := reachable_iff.mp hu
  refine ⟨?_, ⟨_, ranged_append? t u, ?_⟩, ⟨_, ranged_prepend? t u, ?_⟩, fun attributes => ?_,
    fun s h1 h2 => slice?_of_clear t h1 h2, fun f g hg => ?_, fun w hw => ?_,
    fun n hn => append?_slices t hn⟩
  · rw [ranged_inj, chars_ranged, chars_ranged, StyledText.eq_iff_chars]
  · rw [chars_ranged, chars_ranged, chars_ranged, StyledText.chars_append]
  · rw [chars_ranged, chars_ranged, chars_ranged, StyledText.chars_append]
  · rw [ranged_addStyles, chars_ranged, chars_ranged, StyledText.chars_addStyles]
  · obtain rfl : g = (·.flatMap f) := funext hg
    refine ⟨_, ranged_mapText? _ t, ?_⟩
    rw [chars_ranged, chars_ranged, StyledText.chars_mapText_flatMap]
  · obtain ⟨w, rfl⟩ := reachable_iff.mp hw
    simp [ranged_append?, StyledText.append_assoc]

/-- A slice that cuts the first mark after its first character and ends past the text. -/
theorem slice_chars_past_end :
    let t := (plain ['a', 'é']).push ['b'] (.ofList [.bold])
    ∃ u, t.slice? ⟨1, 9⟩ = some u ∧ u.chars = [('é', ∅), ('b', .ofList [.bold])] := by
  intro t
  have ht : Reachable t := .pushStyled _ _ (.plain _)
  obtain ⟨-, -, -, -, hslice, -⟩ := reachable_chars ht ht
  obtain ⟨u, hu, hchars⟩ := hslice ⟨1, 9⟩ (by decide) (by decide)
  exact ⟨u, hu, hchars.trans (by decide)⟩

end Passage.RangedText
