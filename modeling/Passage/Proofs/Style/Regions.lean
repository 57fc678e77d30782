import Passage.Proofs.Text.Bytes
import Passage.Style.Set

/-! Tap targets of style sets. Attributes that are no tap target leave the targets of a set as
they are, and a target put into a set without any is its only one. The target that a set lists
first is its least: verses before notes, then by the bytes of their payloads
(`head?_regions_eq_some_iff`). -/

namespace Passage

/-- Verses come before notes, and of two targets of one kind that with the lesser bytes. -/
def Region.Before (r s : Region) : Prop :=
  r.kind = .verse ∧ s.kind = .note ∨
    r.kind = s.kind ∧ Text.bytes r.payload.toList < Text.bytes s.payload.toList

theorem Region.before_iff {r s : Region} :
    r.Before s ↔ Attribute.clickable r < Attribute.clickable s := by
  rw [Attribute.lt_iff, Before, Text.bytes_lt_iff, ← String.lt_iff]
  rcases r with ⟨_ | _, x⟩ <;> rcases s with ⟨_ | _, y⟩ <;>
    simp [Attribute.rank, Attribute.payload]

theorem Attribute.region?_eq_some_iff {a : Attribute} {region : Region} :
    a.region? = some region ↔ a = .clickable region := by
  cases a <;> simp [region?]

namespace StyleSet

variable {s : StyleSet} {region : Region}

theorem filterMap_region?_place {a : Attribute} (h : a.region? = none) (l : List Attribute) :
    (place a l).filterMap Attribute.region? = l.filterMap Attribute.region? := by
  induction l with
  | nil => simp [place, h]
  | cons b rest ih =>
    unfold place
    split
    · rfl
    · split
      · rw [List.filterMap_cons_none h]
      · simp only [List.filterMap_cons, ih]

theorem filterMap_region?_place_clickable {region : Region} {l : List Attribute}
    (h : l.filterMap Attribute.region? = []) :
    (place (.clickable region) l).filterMap Attribute.region? = [region] := by
  induction l with
  | nil => rfl
  | cons b rest ih =>
    have hb : b.region? = none := List.filterMap_eq_nil_iff.mp h b List.mem_cons_self
    have hrest : rest.filterMap Attribute.region? = [] := by
      rwa [List.filterMap_cons_none hb] at h
    unfold place
    split
    · rename_i he
      rw [← he] at hb
      cases hb
    · split
      · have hr : (Attribute.clickable region).region? = some region := rfl
        rw [List.filterMap_cons_some hr, h]
      · rw [List.filterMap_cons_none hb, ih hrest]

@[simp] theorem regions_empty : (∅ : StyleSet).regions = [] := rfl

theorem regions_insert {a : Attribute} (h : a.region? = none) (s : StyleSet) :
    (s.insert a).regions = s.regions :=
  filterMap_region?_place h s.attributes

theorem regions_insert_clickable {s : StyleSet} (h : s.regions = []) (region : Region) :
    (s.insert (.clickable region)).regions = [region] :=
  filterMap_region?_place_clickable h

theorem regions_insertAll {l : List Attribute} (h : ∀ a ∈ l, a.region? = none) (s : StyleSet) :
    (s.insertAll l).regions = s.regions := by
  induction l generalizing s with
  | nil => rfl
  | cons a l ih =>
    rw [insertAll, List.foldl_cons]
    exact (ih (fun b hb => h b (List.mem_cons_of_mem _ hb)) _).trans
      (regions_insert (h a List.mem_cons_self) s)

/-- An attribute and a tap target: the target is the only one. -/
theorem regions_ofList_pair {a : Attribute} (h : a.region? = none) (region : Region) :
    (ofList [a, .clickable region]).regions = [region] :=
  regions_insert_clickable (regions_insert h ∅) region

theorem clickable_mem_iff : .clickable region ∈ s ↔ region ∈ s.regions := by
  simp only [regions, List.mem_filterMap, Attribute.region?_eq_some_iff, exists_eq_right,
    mem_attributes]

/-- Some target can be tapped under these styles. -/
def Tappable (s : StyleSet) : Prop :=
  ∃ region, .clickable region ∈ s

theorem tappable_iff : s.Tappable ↔ s.regions.head?.isSome := by
  simp only [Tappable, clickable_mem_iff, List.isSome_head?]
  exact ⟨fun ⟨_, h⟩ => List.ne_nil_of_mem h, List.exists_mem_of_ne_nil _⟩

instance (s : StyleSet) : Decidable s.Tappable :=
  decidable_of_iff _ tappable_iff.symm

/-! ## The least target -/

/-- The target that comes before all others of a set. -/
def LeastTarget (s : StyleSet) (region : Region) : Prop :=
  .clickable region ∈ s ∧ ∀ other, .clickable other ∈ s → other = region ∨ region.Before other

theorem LeastTarget.unique {other : Region} (h : s.LeastTarget region) (ho : s.LeastTarget other) :
    region = other := by
  rcases ho.2 region h.1 with he | hlt
  · exact he
  · rcases h.2 other ho.1 with he | hgt
    · exact he.symm
    · rw [Region.before_iff] at hlt hgt
      exact absurd (Attribute.lt_trans hlt hgt) (Attribute.lt_irrefl _)

theorem leastTarget_of_head? (h : s.regions.head? = some region) : s.LeastTarget region := by
  rw [regions, List.head?_filterMap, List.findSome?_eq_some_iff] at h
  obtain ⟨front, a, back, hsplit, ha, hfront⟩ := h
  obtain rfl := Attribute.region?_eq_some_iff.mp ha
  have hmem (b : Attribute) : b ∈ s ↔ b ∈ front ∨ b = .clickable region ∨ b ∈ back := by
    rw [← mem_attributes, hsplit, List.mem_append, List.mem_cons]
  refine ⟨(hmem _).mpr (.inr (.inl rfl)), fun other ho => ?_⟩
  rcases (hmem _).mp ho with ho | ho | ho
  · exact absurd (hfront _ ho) (by simp [Attribute.region?])
  · exact .inl (Attribute.clickable.inj ho)
  · have hascending := s.ascending
    rw [hsplit, List.pairwise_append, List.pairwise_cons] at hascending
    exact .inr (Region.before_iff.mpr (hascending.2.1.1 _ ho))

/-- **The target that a set lists first is its least.** -/
theorem head?_regions_eq_some_iff : s.regions.head? = some region ↔ s.LeastTarget region := by
  refine ⟨leastTarget_of_head?, fun h => ?_⟩
  obtain ⟨first, hfirst⟩ := Option.isSome_iff_exists.mp (tappable_iff.mp ⟨region, h.1⟩)
  rw [hfirst, (leastTarget_of_head? hfirst).unique h]

end StyleSet

end Passage
