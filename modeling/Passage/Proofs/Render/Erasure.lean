import Passage.Proofs.Render.Alike

/-! What styles and handlers do not do to a render. The text of a render and the stages that
complete come from the text alone (`render_text_eq`). A handler for verses does no more than make
the labels tap targets: with the verse targets erased, before or after, the render is the one
without the handler; a handler for notes does nothing to a render (`render_withoutVerses`). -/

namespace Passage

/-! ## Texts without verse targets -/

def Attribute.isVerse : Attribute → Bool
  | clickable region => region.kind = .verse
  | _ => false

namespace StyleSet

def withoutVerses (s : StyleSet) : StyleSet :=
  ⟨s.attributes.filter (!·.isVerse), s.ascending.filter _⟩

theorem mem_withoutVerses {a : Attribute} {s : StyleSet} :
    a ∈ s.withoutVerses ↔ a ∈ s ∧ a.isVerse = false := by
  have h : a ∈ s.withoutVerses ↔ a ∈ s.attributes.filter (!·.isVerse) := Iff.rfl
  rw [h, List.mem_filter, mem_attributes, Bool.not_eq_eq_eq_not, Bool.not_true]

theorem mem_ofList {a : Attribute} {l : List Attribute} : a ∈ ofList l ↔ a ∈ l := by
  have hempty : ¬ a ∈ empty := not_mem_empty
  rw [ofList, mem_insertAll, or_iff_right hempty]

theorem withoutVerses_insertAll {l : List Attribute} (h : ∀ a ∈ l, a.isVerse = false)
    (s : StyleSet) : (s.insertAll l).withoutVerses = s.withoutVerses.insertAll l := by
  refine ext_mem fun a => ?_
  simp only [mem_withoutVerses, mem_insertAll, or_and_right]
  exact or_congr_right (and_iff_left_of_imp (h a))

theorem withoutVerses_ofList {l : List Attribute} (h : ∀ a ∈ l, a.isVerse = false) :
    (ofList l).withoutVerses = ofList l :=
  withoutVerses_insertAll h ∅

end StyleSet

theorem Attribute.isVerse_of_region?_eq_none {a : Attribute} (h : a.region? = none) :
    a.isVerse = false := by
  cases a with
  | clickable region => cases h
  | _ => rfl

theorem NoteMarker.withoutVerses_styles (n : NoteMarker) : n.styles.withoutVerses = n.styles :=
  StyleSet.withoutVerses_ofList fun a ha => by
    rcases List.mem_pair.mp ha with rfl | rfl <;> rfl

theorem VerseMarker.withoutVerses_styles (m : VerseMarker) (tappable : Bool) :
    (m.styles tappable).withoutVerses = m.styles false := by
  have hbold : Attribute.bold.isVerse = false := rfl
  have hverse : (Attribute.clickable m.region).isVerse = true := rfl
  refine StyleSet.ext_mem fun a => ?_
  rw [StyleSet.mem_withoutVerses, styles, styles, StyleSet.mem_ofList, StyleSet.mem_ofList]
  cases tappable with
  | false => simp +contextual [hbold]
  | true =>
    simp only [if_true, Bool.false_eq_true, if_false, List.mem_pair, List.mem_singleton]
    constructor
    · rintro ⟨rfl | rfl, hv⟩
      · rfl
      · rw [hverse] at hv
        cases hv
    · rintro rfl
      exact ⟨.inl rfl, hbold⟩

/-- The text without its verse targets; neighbours that have become equal in style are one run. -/
def StyledText.withoutVerses (t : StyledText) : StyledText :=
  ofRuns (t.runs.map fun r => ⟨r.text, r.styles.withoutVerses⟩)

theorem StyledText.chars_withoutVerses (t : StyledText) :
    t.withoutVerses.chars = t.chars.map fun c => (c.1, c.2.withoutVerses) := by
  rw [withoutVerses, chars_ofRuns, chars]
  induction t.runs with
  | nil => rfl
  | cons r rs ih => simp [ih, Run.chars]

/-! ## Relations of style sets that renders respect -/

/-- Any two style sets are related. -/
theorem respected_total {c d : RenderConfig} (h : c.SameChoices d) :
    Respected (fun _ _ => True) c d where
  choices := h
  unstyled := trivial
  insertAll _ _ := trivial
  note _ := trivial
  label _ := trivial

/-- Equal style sets are related, where the configurations agree on verse handlers. -/
theorem respected_eq {c d : RenderConfig} (h : c.SameChoices d)
    (hv : c.verseHandler = d.verseHandler) : Respected (fun s t => t = s) c d where
  choices := h
  unstyled := rfl
  insertAll _ hst := by rw [hst]
  note _ := rfl
  label _ := by rw [hv]

/-- A style set is related to the set without its verse targets, where the second configuration has
no verse handler. -/
theorem respected_withoutVerses {c d : RenderConfig} (h : c.SameChoices d)
    (hv : d.verseHandler = false) : Respected (fun s t => t = s.withoutVerses) c d where
  choices := h
  unstyled := rfl
  insertAll ha hst := by
    rw [hst, StyleSet.withoutVerses_insertAll]
    exact fun a hmem => Attribute.isVerse_of_region?_eq_none (ha a hmem)
  note n := n.withoutVerses_styles.symm
  label m := by rw [hv, m.withoutVerses_styles]

theorem StyledText.alikeTo_total_iff {t u : StyledText} :
    t.AlikeTo (fun _ _ => True) u ↔ t.text = u.text := by
  rw [AlikeTo, alike_total_iff, text_eq_map_chars, text_eq_map_chars]

theorem StyledText.alikeTo_eq_iff {t u : StyledText} : t.AlikeTo (fun s t => t = s) u ↔ u = t := by
  rw [AlikeTo, alike_graph_iff (f := fun s => s), eq_iff_chars]
  simp only [List.map_id']

theorem StyledText.alikeTo_withoutVerses_iff {t u : StyledText} :
    t.AlikeTo (fun s t => t = s.withoutVerses) u ↔ u = t.withoutVerses := by
  rw [AlikeTo, alike_graph_iff, eq_iff_chars, chars_withoutVerses]

/-! ## Renders -/

/-- **Styles never influence text.** Texts with the same characters, rendered under configurations
that differ in their handlers at most, give the same characters, and the same stages complete and
are cancelled. -/
theorem render_text_eq {c d : RenderConfig} (hc : c.SameChoices d) {t u : StyledText}
    (ht : t.text = u.text) (stages : List Stage) (polls : Polls) :
    let left := render c stages polls t
    let right := render d stages polls u
    left.text.text = right.text.text ∧ left.completed = right.completed ∧
      left.cancelled = right.cancelled := by
  intro left right
  obtain ⟨htext, hstages⟩ := (respected_total hc).alike_renderWith none polls 0 stages
    (StyledText.alikeTo_total_iff.mpr ht)
  exact ⟨StyledText.alikeTo_total_iff.mp htext, hstages⟩

/-- A heading in two styles, cut inside a word, and a verse under a handler, with the token raised
before the Selah stage. -/
theorem render_text_eq_cut_heading :
    let c : RenderConfig := { verseHandler := true }
    let d : RenderConfig := { noteHandler := true }
    let bold : StyleSet := .ofList [.bold]
    let t : StyledText := .plain "<para style=\"ms\">Fuß".toList ++ .styled "e".toList bold ++
      .plain "</para><verse number=\"1\" style=\"v\"/>".toList
    let u : StyledText :=
      .styled "<para style=\"ms\">Fuße</para><verse number=\"1\" style=\"v\"/>".toList bold
    let stages : List Stage := [.majorSectionHeading, .verse, .verse, .selah]
    let left := render c stages (.raisedAfter 4) t
    let right := render d stages (.raisedAfter 4) u
    t.text = u.text ∧ left.text ≠ right.text ∧ right.text.text = "FUSSE\n1 ".toList ∧
      left.text.text = right.text.text ∧ left.completed = right.completed ∧
      left.cancelled = right.cancelled ∧ right.cancelled = some .selah := by
  intro c d bold t u stages left right
  have ht : t.text = u.text := by decide +kernel
  obtain ⟨htext, hcompleted, hcancelled⟩ :=
    render_text_eq (c := c) (d := d) ⟨rfl, rfl, rfl, rfl⟩ ht stages (.raisedAfter 4)
  exact ⟨ht, by decide +kernel, by decide +kernel, htext, hcompleted, hcancelled,
    by decide +kernel⟩

/-- **Tap targets refine a plain render.** Whatever the token answers, the render with a verse
handler is, its verse targets erased, the render without one of the text without verse targets. A
note handler changes nothing. -/
theorem render_withoutVerses (config : RenderConfig) (stages : List Stage) (polls : Polls)
    (t : StyledText) :
    let pinned := render { config with verseHandler := true } stages polls t
    let bare := render { config with verseHandler := false } stages polls t.withoutVerses
    pinned.text.withoutVerses = bare.text ∧ pinned.completed = bare.completed ∧
      pinned.cancelled = bare.cancelled ∧
      ∀ handler, render { config with noteHandler := handler } stages polls t =
        render config stages polls t := by
  intro pinned bare
  have herase : Respected (fun s t => t = s.withoutVerses) { config with verseHandler := true }
      { config with verseHandler := false } :=
    respected_withoutVerses ⟨rfl, rfl, rfl, rfl⟩ rfl
  obtain ⟨htext, hcompleted, hcancelled⟩ := herase.alike_renderWith none polls 0 stages
    (StyledText.alikeTo_withoutVerses_iff.mpr rfl : t.AlikeTo _ t.withoutVerses)
  refine ⟨(StyledText.alikeTo_withoutVerses_iff.mp htext).symm, hcompleted, hcancelled,
    fun handler => ?_⟩
  have hsame : Respected (fun s t => t = s) config { config with noteHandler := handler } :=
    respected_eq ⟨rfl, rfl, rfl, rfl⟩ rfl
  obtain ⟨htext, hcompleted, hcancelled⟩ := hsame.alike_renderWith none polls 0 stages
    (StyledText.alikeTo_eq_iff.mpr rfl : t.AlikeTo _ t)
  rw [render, render, Report.mk.injEq]
  exact ⟨StyledText.alikeTo_eq_iff.mp htext, hcompleted.symm, hcancelled.symm⟩

end Passage
