import Mathlib.Data.List.Basic
import Mathlib.Data.List.Induction
import Passage.Display.Line

/-! What the look of a style set says, told by the members of the set. The look is painted attribute
by attribute, and a later one can undo an earlier one. In the order of a set bold and italic come
before normal, so normal has the last word on them; and the last tap target has the last word on the
colour (`tells_ofStyles`). -/

namespace Passage

/-- What the look says of the colour and of each modifier, for a list of attributes; and whether it
is in reverse video, which no attribute asks for. -/
structure Look.Tells (attributes : List Attribute) (reversed : Bool) (l : Look) : Prop where
  colour : l.colour = ((attributes.filterMap Attribute.region?).getLast?).map fun region =>
    Look.regionColour region.kind
  bold : l.added.bold = true ↔ .bold ∈ attributes ∧ .normal ∉ attributes
  italic : l.added.italic = true ↔ .italic ∈ attributes ∧ .normal ∉ attributes
  underlined : l.added.underlined = true ↔ attributes.filterMap Attribute.region? ≠ []
  reversed : l.added.reversed = reversed
  removed : l.removed = ⟨decide (.normal ∈ attributes), decide (.normal ∈ attributes), false, false⟩

namespace Look

variable {l : Look} {attributes : List Attribute} {reversed : Bool}

theorem filterMap_region?_concat (attributes : List Attribute) {a : Attribute}
    (h : a.region? = none) :
    (attributes ++ [a]).filterMap Attribute.region? = attributes.filterMap Attribute.region? := by
  simp [h]

theorem tells_nil : Tells [] false {} where
  colour := rfl
  bold := by simp
  italic := by simp
  underlined := by simp
  reversed := rfl
  removed := rfl

/-- Bold and italic are painted before normal is. -/
theorem Tells.paint_emphasis (h : Tells attributes reversed l) {a : Attribute}
    (ha : a = .bold ∨ a = .italic) (hn : .normal ∉ attributes) :
    Tells (attributes ++ [a]) reversed (l.paint a) := by
  have hregions := filterMap_region?_concat attributes (a := a) (by obtain rfl | rfl := ha <;> rfl)
  have hbold := h.bold
  have hitalic := h.italic
  constructor
  · rw [hregions, ← h.colour]
    obtain rfl | rfl := ha <;> rfl
  · obtain rfl | rfl := ha <;> simp_all [paint, add, Modifiers.union]
  · obtain rfl | rfl := ha <;> simp_all [paint, add, Modifiers.union]
  · rw [hregions, ← h.underlined]
    obtain rfl | rfl := ha <;> simp [paint, add, Modifiers.union]
  · rw [← h.reversed]
    obtain rfl | rfl := ha <;> simp [paint, add, Modifiers.union]
  · obtain rfl | rfl := ha <;> simp [paint, add, Modifiers.diff, h.removed, hn]

theorem Tells.paint_normal (h : Tells attributes reversed l) :
    Tells (attributes ++ [.normal]) reversed (l.paint .normal) := by
  have hregions := filterMap_region?_concat attributes (a := .normal) rfl
  constructor
  · rw [hregions]
    exact h.colour
  · simp [paint, remove, Modifiers.diff]
  · simp [paint, remove, Modifiers.diff]
  · rw [hregions, ← h.underlined]
    simp [paint, remove, Modifiers.diff]
  · simpa [paint, remove, Modifiers.diff] using h.reversed
  · simp [paint, remove, Modifiers.union, h.removed]

/-- An attribute that says nothing of the look. -/
theorem Tells.paint_idle (h : Tells attributes reversed l) {a : Attribute}
    (ha : a = .alignCenter ∨ a = .alignOpposite) :
    Tells (attributes ++ [a]) reversed (l.paint a) := by
  have hpaint : l.paint a = l := by obtain rfl | rfl := ha <;> rfl
  have hregions := filterMap_region?_concat attributes (a := a) (by obtain rfl | rfl := ha <;> rfl)
  have hmem {b : Attribute} (hb : b ≠ a) : b ∈ attributes ++ [a] ↔ b ∈ attributes := by simp [hb]
  have hbold : Attribute.bold ≠ a := by obtain rfl | rfl := ha <;> decide
  have hitalic : Attribute.italic ≠ a := by obtain rfl | rfl := ha <;> decide
  have hnormal : Attribute.normal ≠ a := by obtain rfl | rfl := ha <;> decide
  rw [hpaint]
  constructor
  · rw [hregions]
    exact h.colour
  · rw [hmem hbold, hmem hnormal]
    exact h.bold
  · rw [hmem hitalic, hmem hnormal]
    exact h.italic
  · rw [hregions]
    exact h.underlined
  · exact h.reversed
  · simp only [hmem hnormal]
    exact h.removed

theorem Tells.paint_clickable (h : Tells attributes reversed l) (region : Region) :
    Tells (attributes ++ [.clickable region]) reversed (l.paint (.clickable region)) := by
  constructor
  · simp [paint, add, Attribute.region?]
  · simpa [paint, add, Modifiers.union] using h.bold
  · simpa [paint, add, Modifiers.union] using h.italic
  · simp [paint, add, Modifiers.union, Attribute.region?]
  · simpa [paint, add, Modifiers.union] using h.reversed
  · simp [paint, add, Modifiers.diff, h.removed]

/-- Attributes in their order, painted one after the other. -/
theorem tells_foldl_paint (h : attributes.Pairwise (· < ·)) :
    Tells attributes false (attributes.foldl paint {}) := by
  -- from the end, as each attribute is painted over all that stand before it in the order
  induction attributes using List.reverseRecOn with
  | nil => exact tells_nil
  | append_singleton attributes a ih =>
    obtain ⟨hfront, -, hlast⟩ := List.pairwise_append.mp h
    have hbefore (b : Attribute) (hb : b ∈ attributes) : b < a := hlast b hb a List.mem_cons_self
    have ih := ih hfront
    rw [List.foldl_concat]
    cases a with
    | bold => exact ih.paint_emphasis (.inl rfl) fun hn => absurd (hbefore _ hn) (by decide)
    | italic => exact ih.paint_emphasis (.inr rfl) fun hn => absurd (hbefore _ hn) (by decide)
    | normal => exact ih.paint_normal
    | alignCenter => exact ih.paint_idle (.inl rfl)
    | alignOpposite => exact ih.paint_idle (.inr rfl)
    | clickable region => exact ih.paint_clickable region

/-- **What the look of a style set says.** -/
theorem tells_ofStyles (s : StyleSet) : Tells s.attributes false (ofStyles s) :=
  tells_foldl_paint s.ascending

theorem Tells.add_reversed (h : Tells attributes false l) :
    Tells attributes true (l.add { reversed := true }) := by
  constructor
  · exact h.colour
  · simpa [add, Modifiers.union] using h.bold
  · simpa [add, Modifiers.union] using h.italic
  · rw [← h.underlined]
    simp [add, Modifiers.union]
  · simp [add, Modifiers.union]
  · simp [add, Modifiers.diff, h.removed]

end Look

/-- The look of a piece is that of its styles, in reverse video if it is selected. -/
theorem Piece.tells_look (p : Piece) : Look.Tells p.styles.attributes p.selected p.look := by
  have htells := Look.tells_ofStyles p.styles
  rw [Piece.look]
  cases p.selected with
  | false => exact htells
  | true => exact htells.add_reversed

end Passage
