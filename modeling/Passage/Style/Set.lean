import Passage.Style.Attribute

/-! A style set is a strictly ascending list of attributes: listing it needs no sorting,
and two sets with the same members are equal. -/

namespace Passage

/-- A finite set of attributes, listed in ascending order. -/
structure StyleSet where
  attributes : List Attribute
  ascending : attributes.Pairwise (· < ·)
deriving DecidableEq

namespace StyleSet

def empty : StyleSet := ⟨[], .nil⟩

instance : EmptyCollection StyleSet := ⟨empty⟩

instance : Inhabited StyleSet := ⟨empty⟩

instance : Membership Attribute StyleSet where
  mem s a := a ∈ s.attributes

instance (a : Attribute) (s : StyleSet) : Decidable (a ∈ s) :=
  inferInstanceAs (Decidable (a ∈ s.attributes))

def isEmpty (s : StyleSet) : Bool :=
  s.attributes.isEmpty

/-- Puts an attribute at its place in an ascending list that may hold it already. -/
def place (a : Attribute) : List Attribute → List Attribute
  | [] => [a]
  | b :: rest => if a = b then b :: rest else if a < b then a :: b :: rest else b :: place a rest

theorem mem_place {a x : Attribute} {l : List Attribute} :
    x ∈ place a l ↔ x = a ∨ x ∈ l := by
  induction l with
  | nil => simp [place]
  | cons b rest ih =>
    unfold place
    split
    · rename_i h; simp [h]
    · split
      · simp
      · simp [ih, or_left_comm]

theorem ascending_place {a : Attribute} {l : List Attribute} (h : l.Pairwise (· < ·)) :
    (place a l).Pairwise (· < ·) := by
  induction l with
  | nil => simp [place]
  | cons b rest ih =>
    rw [List.pairwise_cons] at h
    unfold place
    split
    · exact List.pairwise_cons.2 h
    · rename_i hne
      split
      · rename_i hlt
        refine List.pairwise_cons.2 ⟨fun x hx => ?_, List.pairwise_cons.2 h⟩
        rcases List.mem_cons.1 hx with rfl | hx
        · exact hlt
        · exact Attribute.lt_trans hlt (h.1 x hx)
      · rename_i hlt
        refine List.pairwise_cons.2 ⟨fun x hx => ?_, ih h.2⟩
        rcases mem_place.1 hx with rfl | hx
        · exact Attribute.lt_of_not_lt_of_ne hlt hne
        · exact h.1 x hx

def insert (a : Attribute) (s : StyleSet) : StyleSet :=
  ⟨place a s.attributes, ascending_place s.ascending⟩

def insertAll (s : StyleSet) (attributes : List Attribute) : StyleSet :=
  attributes.foldl (fun t a => t.insert a) s

/-- The set of the attributes of a list, whatever its order and repetitions. -/
def ofList (attributes : List Attribute) : StyleSet :=
  empty.insertAll attributes

def regions (s : StyleSet) : List Region :=
  s.attributes.filterMap Attribute.region?

@[simp] theorem mem_attributes {a : Attribute} {s : StyleSet} : a ∈ s.attributes ↔ a ∈ s :=
  Iff.rfl

@[simp] theorem not_mem_empty {a : Attribute} : ¬ a ∈ (∅ : StyleSet) :=
  List.not_mem_nil

theorem mem_insert {a b : Attribute} {s : StyleSet} : b ∈ s.insert a ↔ b = a ∨ b ∈ s :=
  mem_place

theorem mem_insertAll {l : List Attribute} {b : Attribute} {s : StyleSet} :
    b ∈ s.insertAll l ↔ b ∈ s ∨ b ∈ l := by
  induction l generalizing s with
  | nil => simp [insertAll]
  | cons a rest ih =>
    have := ih (s := s.insert a)
    simp only [insertAll, List.foldl_cons] at this ⊢
    rw [this, mem_insert]
    simp [or_assoc, or_left_comm]

private theorem eq_of_same_members {l m : List Attribute} (hl : l.Pairwise (· < ·))
    (hm : m.Pairwise (· < ·)) (h : ∀ a, a ∈ l ↔ a ∈ m) : l = m := by
  induction l generalizing m with
  | nil =>
    cases m with
    | nil => rfl
    | cons b _ => exact absurd ((h b).2 List.mem_cons_self) List.not_mem_nil
  | cons a l ih =>
    cases m with
    | nil => exact absurd ((h a).1 List.mem_cons_self) List.not_mem_nil
    | cons b m =>
      rw [List.pairwise_cons] at hl hm
      have hab : a = b := by
        rcases List.mem_cons.1 ((h a).1 List.mem_cons_self) with e | ha
        · exact e
        · rcases List.mem_cons.1 ((h b).2 List.mem_cons_self) with e | hb
          · exact e.symm
          · exact absurd (Attribute.lt_trans (hl.1 b hb) (hm.1 a ha)) (Attribute.lt_irrefl a)
      subst hab
      rw [ih hl.2 hm.2 fun x => ?_]
      have hx := h x
      simp only [List.mem_cons] at hx
      constructor
      · intro hxl
        rcases hx.1 (.inr hxl) with rfl | hxm
        · exact absurd (hl.1 _ hxl) (Attribute.lt_irrefl _)
        · exact hxm
      · intro hxm
        rcases hx.2 (.inr hxm) with rfl | hxl
        · exact absurd (hm.1 _ hxm) (Attribute.lt_irrefl _)
        · exact hxl

/-- Sets with the same members are equal. -/
theorem ext_mem {s t : StyleSet} (h : ∀ a, a ∈ s ↔ a ∈ t) : s = t := by
  rcases s with ⟨l, hl⟩
  rcases t with ⟨m, hm⟩
  have : l = m := eq_of_same_members hl hm h
  subst this
  rfl

end StyleSet

end Passage
