import Passage.Proofs.Render.Alike
import Passage.Proofs.Style.Regions
import Passage.Proofs.Styled.Lookup
import Passage.Proofs.Styled.Targets

/-! No tap target is hidden. No stage puts a tap target on characters that have one, so no run of a
render has more than one target (`respected_atMostOne`), and the targets that are reported, one for
each run that has any, are all there are. A character that can be tapped lies in one of the reported
spans and in no other (`render_targets_shown`). -/

namespace Passage

def StyleSet.AtMostOneRegion (s : StyleSet) : Prop :=
  s.regions.length ≤ 1

/-- No stage puts a tap target on another one. -/
theorem respected_atMostOne (config : RenderConfig) :
    Respected (fun s _ => s.AtMostOneRegion) config config where
  choices := ⟨rfl, rfl, rfl, rfl⟩
  unstyled := Nat.zero_le 1
  insertAll ha hs := by
    rw [StyleSet.AtMostOneRegion, StyleSet.regions_insertAll ha]
    exact hs
  note n := by
    rw [StyleSet.AtMostOneRegion, NoteMarker.styles, StyleSet.regions_ofList_pair rfl]
    exact Nat.le_refl 1
  label m := by
    rw [StyleSet.AtMostOneRegion, VerseMarker.styles]
    split
    · rw [StyleSet.regions_ofList_pair rfl]
      exact Nat.le_refl 1
    · exact Nat.zero_le 1

/-- A target of such a set is the one that is reported. -/
theorem StyleSet.AtMostOneRegion.head?_eq {s : StyleSet} (h : s.AtMostOneRegion) {region : Region}
    (hmem : region ∈ s.regions) : s.regions.head? = some region := by
  obtain ⟨first, hfirst⟩ :=
    List.length_eq_one_iff.mp (Nat.le_antisymm h (List.length_pos_of_mem hmem))
  rw [hfirst] at hmem ⊢
  rw [List.mem_singleton.mp hmem]
  rfl

namespace StyledText

/-- The targets that are reported are those of all runs, if none has two. -/
theorem regions_eq_flatMap {t : StyledText} (h : ∀ r ∈ t.runs, r.styles.AtMostOneRegion) :
    t.regions = t.placed.flatMap fun p => p.2.styles.regions.map (p.1, ·) := by
  rw [regions, List.filterMap_eq_flatMap_toList]
  refine List.flatMap_congr fun p hp => ?_
  have hone := h p.2 (mem_runs_of_mem_placed hp)
  rw [StyleSet.AtMostOneRegion] at hone
  generalize p.2.styles.regions = targets at hone ⊢
  rcases targets with _ | ⟨region, _ | ⟨second, rest⟩⟩
  · rfl
  · rfl
  · exact absurd hone (by simp)

/-- A character that can be tapped lies in one reported span, if no run has two targets. -/
theorem filter_holds_regions {t : StyledText} (h : ∀ c ∈ t.chars, c.2.AtMostOneRegion)
    {p : Span × StyledChar} (hp : p ∈ t.ranged.placedChars) {region : Region}
    (hregion : .clickable region ∈ p.2.2) :
    ∃ span, t.regions.filter (fun q => q.1.holds p.1) = [(span, region)] := by
  rw [RangedText.placedChars_ranged] at hp
  have hchar : p.2 ∈ t.chars := by
    rw [chars, ← Run.map_snd_placedCharsFrom 0 t.runs]
    exact List.mem_map_of_mem hp
  obtain ⟨q, hq, hstyles⟩ := Run.filter_holds_placedFrom hp
  have hhead : q.2.styles.regions.head? = some region :=
    hstyles ▸ (h p.2 hchar).head?_eq (StyleSet.clickable_mem_iff.mp hregion)
  have hcomm : (fun r : Span × Run => Option.filter (fun q : Span × Region => q.1.holds p.1)
      (r.2.styles.regions.head?.map (r.1, ·))) =
      fun r => if r.1.holds p.1 = true then r.2.styles.regions.head?.map (r.1, ·) else none := by
    funext r
    cases r.2.styles.regions.head? with
    | none => simp
    | some _ => rfl
  refine ⟨q.1, ?_⟩
  rw [regions, List.filter_filterMap, hcomm, ← List.filterMap_filter, placed, hq]
  rw [List.filterMap_cons, hhead]
  rfl

end StyledText

/-- **No tap target of a render is hidden**, whatever stages made it, in whatever order. No run has
more than one; so the reported targets are those of all runs, and each character that can be tapped
lies in exactly one reported span, with the region that it carries. -/
theorem render_targets_shown (config : RenderConfig) (stages : List Stage) (polls : Polls)
    (text : List Char) :
    let out := (render config stages polls (.plain text)).text
    (∀ r ∈ out.runs, r.styles.AtMostOneRegion) ∧
      out.regions = out.placed.flatMap (fun p => p.2.styles.regions.map (p.1, ·)) ∧
      ∀ p ∈ out.ranged.placedChars, ∀ region, .clickable region ∈ p.2.2 →
        ∃ span, out.regions.filter (fun q => q.1.holds p.1) = [(span, region)] := by
  intro out
  have hplain : (StyledText.plain text).AlikeTo (fun s _ => s.AtMostOneRegion) (.plain text) :=
    (respected_atMostOne config).plain text
  have hchars : ∀ c ∈ out.chars, c.2.AtMostOneRegion :=
    alike_self_iff.mp
      ((respected_atMostOne config).alike_renderWith none polls 0 stages hplain).1
  have hruns := StyledText.forall_runs_of_chars hchars
  exact ⟨hruns, StyledText.regions_eq_flatMap hruns,
    fun _ hp _ hregion => StyledText.filter_holds_regions hchars hp hregion⟩

/-- A verse before a note that holds another verse, each stage run twice: the glyph of the note, at
byte four, lies in one of the two spans. -/
theorem render_targets_shown_glyph :
    let text := ("ä<verse number=\"1\" style=\"v\"/><note caller=\"+\" style=\"f\">" ++
      "see <verse number=\"2\" style=\"v\"/>b</note>").toList
    let out := (render { verseHandler := true } [.verse, .note, .verse, .note] (.always false)
      (.plain text)).text
    let glyph : Region := ⟨.note, "see 2 b"⟩
    ∃ p ∈ out.ranged.placedChars, p.1 = ⟨4, 5⟩ ∧ .clickable glyph ∈ p.2.2 ∧
      out.regions.length = 2 ∧
      ∃ span, out.regions.filter (fun q => q.1.holds p.1) = [(span, glyph)] := by
  intro text out glyph
  have hglyph : (⟨4, 5⟩, '*', .ofList [.italic, .clickable glyph]) ∈ out.ranged.placedChars := by
    decide +kernel
  have htap : .clickable glyph ∈ StyleSet.ofList [.italic, .clickable glyph] := by
    decide +kernel
  have hshown := (render_targets_shown { verseHandler := true } [.verse, .note, .verse, .note]
    (.always false) text).2.2
  exact ⟨_, hglyph, rfl, htap, by decide +kernel, hshown _ hglyph glyph htap⟩

end Passage
