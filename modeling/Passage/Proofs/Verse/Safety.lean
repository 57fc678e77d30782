import Passage.Proofs.Render.Cancellation
import Passage.Proofs.Render.Pins
import Passage.Proofs.Verse.Coverage

/-! Safety of a whole render. Before the verse stage no text has pins, the verse stage gives the
exposed markers, and the later stages keep some of these (`afterStages_pinned`). A render is what
some of its first stages make of the text, so the verse targets of its output are as the verse
stage left them, whatever the schedule (`render_verse_safety`). -/

namespace Passage

open VerseMarker (Apart)

structure Exposable (config : RenderConfig) (ms : List VerseMarker) : Prop where
  fits : ∀ m ∈ ms, m.Fits
  apart : ms.Pairwise Apart
  within : ∀ lo hi, config.expected.bounds? = some (lo, hi) →
    ∀ m ∈ ms, lo ≤ m.first ∧ m.last ≤ hi
  shown : ms ≠ [] → config.renderVerses = true ∧ config.verseHandler = true

namespace Exposable

variable {config : RenderConfig} {ms : List VerseMarker}

theorem nil (config : RenderConfig) : Exposable config [] where
  fits _ hm := absurd hm List.not_mem_nil
  apart := .nil
  within _ _ _ _ hm := absurd hm List.not_mem_nil
  shown h := absurd rfl h

theorem sublist (h : Exposable config ms) {ns : List VerseMarker} (hn : ns.Sublist ms) :
    Exposable config ns where
  fits m hm := h.fits m (hn.subset hm)
  apart := h.apart.sublist hn
  within lo hi hb m hm := h.within lo hi hb m (hn.subset hm)
  shown hne := h.shown fun he => hne (List.sublist_nil.mp (he ▸ hn))

theorem exposed (hb : config.expected.Fits) (text : List Char) :
    Exposable config (exposed config (acceptedVerses text)) where
  fits := exposed_fits hb fun _ => fits_of_mem_acceptedVerses
  apart := exposed_apart config (acceptedVerses_apart text)
  within _ _ hbounds := exposed_within hbounds
  shown hne := by
    rw [Passage.exposed] at hne
    split at hne
    · rename_i h
      exact Bool.and_eq_true_iff.mp h
    · exact absurd rfl hne

end Exposable

/-- Stages without the verse stage keep some of the pins. -/
theorem afterStages_pinned (config : RenderConfig) {stages : List Stage}
    (hs : Stage.verse ∉ stages) {t : StyledText} {ms : List VerseMarker} (h : Pinned t.chars ms) :
    ∃ ms', ms'.Sublist ms ∧ Pinned (afterStages config t stages).chars ms' := by
  refine afterStages_induction (P := fun u => ∃ ms', ms'.Sublist ms ∧ Pinned u.chars ms')
    (fun s hmem u hu => ?_) ⟨ms, .refl ms, h⟩
  obtain ⟨ms₁, hsub₁, h₁⟩ := hu
  have hne : s ≠ .verse := fun he => hs (he ▸ hmem)
  obtain ⟨ms₂, hsub₂, h₂⟩ := Stage.apply_pinned hne config h₁
  exact ⟨ms₂, hsub₂.trans hsub₁, h₂⟩

/-- What stages make of an unstyled text, none of them used twice, has pins that may be exposed. -/
theorem afterStages_exposable {config : RenderConfig} (hb : config.expected.Fits)
    {stages : List Stage} (hn : stages.Nodup) (text : List Char) :
    ∃ ms, Pinned (afterStages config (.plain text) stages).chars ms ∧ Exposable config ms := by
  by_cases hv : Stage.verse ∈ stages
  · obtain ⟨front, back, rfl⟩ := List.append_of_mem hv
    obtain ⟨-, hback, hdisj⟩ := List.nodup_append.mp hn
    have hfront : Stage.verse ∉ front :=
      fun h => hdisj _ h _ List.mem_cons_self rfl
    obtain ⟨ms₁, hsub₁, h₁⟩ := afterStages_pinned config hfront (.plain text)
    rw [List.sublist_nil.mp hsub₁, Pinned.nil_iff] at h₁
    obtain ⟨ms₂, hsub₂, h₂⟩ :=
      afterStages_pinned config (List.nodup_cons.mp hback).1 (pinned_verseOutput config h₁)
    rw [afterStages_append, afterStages, Stage.apply_verse]
    exact ⟨ms₂, h₂, (Exposable.exposed hb _).sublist hsub₂⟩
  · obtain ⟨ms, hsub, h⟩ := afterStages_pinned config hv (.plain text)
    rw [List.sublist_nil.mp hsub] at h
    exact ⟨[], h, .nil config⟩

/-- **The verse targets of a render are safe.** Their payloads read as markers that share no
number and lie inside the bounds, each target covers its payload and nothing else, and a handler
answers it. There are none if verses are not rendered or not handled. -/
theorem render_verse_safety (config : RenderConfig) (hb : config.expected.Fits) (polls : Polls)
    (text : List Char) :
    let out := (render config Stage.all polls (.plain text)).text
    ∃ ms : List VerseMarker, out.verseMarkers = ms.map .ok ∧ ms.Pairwise Apart ∧
      (∀ lo hi, config.expected.bounds? = some (lo, hi) →
        ∀ m ∈ ms, ∀ n, n ∈ m → lo ≤ n ∧ n ≤ hi) ∧
      (∀ p ∈ out.verseTargets,
        (out.slice? p.1).map (·.text) = some p.2.payload.toList ∧
          config.handles p.2.kind = true ∧ config.dispatch p.2 = [p.2]) ∧
      (config.renderVerses = false ∨ config.verseHandler = false → out.verseTargets = []) := by
  intro out
  obtain ⟨k, -, hr⟩ := renderWith_stoppedAfter config Stage.all polls 0 (.plain text)
  have hout : out = afterStages config (.plain text) (Stage.all.take k) :=
    congrArg Report.text hr
  have hnodup : (Stage.all.take k).Nodup :=
    List.Nodup.sublist (List.take_sublist k _) (by decide)
  obtain ⟨ms, hpins, hms⟩ := afterStages_exposable hb hnodup text
  rw [← hout] at hpins
  obtain ⟨hregions, hcovers⟩ :=
    StyledText.targets_of_pinned hpins (VerseMarker.nodup_regions hms.fits hms.apart)
  have hshown : out.verseTargets ≠ [] →
      config.renderVerses = true ∧ config.verseHandler = true := by
    intro hne
    refine hms.shown fun he => hne ?_
    rw [he] at hregions
    exact List.map_eq_nil_iff.mp hregions
  refine ⟨ms, StyledText.verseMarkers_of_pinned hpins hms.fits hms.apart, hms.apart, ?_, ?_, ?_⟩
  · intro lo hi hbounds m hm n hn
    obtain ⟨hlo, hhi⟩ := hms.within lo hi hbounds m hm
    exact ⟨Nat.le_trans hlo hn.1, Nat.le_trans hn.2 hhi⟩
  · intro p hp
    have hkind : p.2.kind = .verse := by simpa using (List.mem_filter.mp hp).2
    have hhandles : config.handles p.2.kind = true := by
      rw [hkind]
      exact (hshown (List.ne_nil_of_mem hp)).2
    refine ⟨hcovers p hp, hhandles, ?_⟩
    rw [RenderConfig.dispatch, if_pos hhandles]
  · intro hoff
    refine Classical.byContradiction fun hne => ?_
    obtain ⟨h1, h2⟩ := hshown hne
    rcases hoff with h | h
    · rw [h1] at h
      cases h
    · rw [h2] at h
      cases h

/-- A token raised before the last stage: the label has come through the chapter label around it,
and its target covers the one character of its payload. -/
theorem render_verse_safety_in_chapter_label :
    let config : RenderConfig := { expected := .single 1, verseHandler := true }
    let text := "<para style=\"cl\"> <verse number=\"1\" style=\"v\"/></para>".toList
    let report := render config Stage.all (.raisedAfter 17) (.plain text)
    config.expected.Fits ∧ report.cancelled = some .selah ∧
      report.text.verseTargets = [(⟨0, 1⟩, ⟨.verse, "1"⟩)] ∧
      ∀ p ∈ report.text.verseTargets, config.dispatch p.2 = [p.2] := by
  intro config text report
  have hfits : config.expected.Fits := by
    rintro lo hi ⟨⟩
    decide
  obtain ⟨ms, -, -, -, htargets, -⟩ :=
    render_verse_safety config hfits (.raisedAfter 17) text
  exact ⟨hfits, by decide +kernel, by decide +kernel, fun p hp => (htargets p hp).2.2⟩

end Passage
