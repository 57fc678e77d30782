import Passage.Proofs.Render.Complete
import Passage.Proofs.Verse.Accepted
import Passage.Proofs.Verse.Targets

/-! Coverage by the verse stage. The scan's set of numbers is told by the accepted markers at
every tag (`answers_verseAt`), so from a text without pins the stage gives one whose pins are
exactly the exposed markers (`pinned_verseOutput`). Which number is covered how often follows
from the accepted tags and the bounds alone (`verse_coverage`). -/

namespace Passage

open VerseMarker (Apart acceptFrom)

/-! ## Labels -/

theorem pinned_render (m : VerseMarker) (tappable : Bool) :
    Pinned (m.render tappable).chars (if tappable then [m] else []) := by
  rw [VerseMarker.render, StyledText.chars_append, StyledText.chars_styled]
  cases tappable with
  | true =>
    have hs : (StyleSet.ofList [.bold, .clickable m.region]).regions = [m.region] :=
      StyleSet.regions_ofList_pair rfl m.region
    exact (Pinned.label hs).append (.plain [' '])
  | false =>
    refine Pinned.append (.of_unpinned fun c hc => ?_) (.plain [' '])
    obtain ⟨d, -, rfl⟩ := List.mem_map.mp hc
    exact StyleSet.unpinned_of_regions_eq_nil rfl

theorem pinned_verseLabel (config : RenderConfig) (m : VerseMarker) :
    Pinned (verseLabel config m).chars (if config.verseHandler then [m] else []) := by
  rw [verseLabel]
  split
  · rw [StyledText.chars_append]
    exact (Pinned.plain ['\n']).append (pinned_render m config.verseHandler)
  · exact pinned_render m config.verseHandler

theorem pinned_labels (tappable : Bool) (numbers : List Nat) :
    Pinned (StyledText.concat (numbers.map fun n => (VerseMarker.single n).render tappable)).chars
      (if tappable then numbers.map .single else []) := by
  rw [StyledText.chars_concat]
  induction numbers with
  | nil =>
    rw [List.map_nil, List.map_nil, ite_self]
    exact .nil
  | cons n rest ih =>
    have h := (pinned_render (.single n) tappable).append ih
    cases tappable <;> exact h

/-! ## The scan -/

/-- A tag in its turn: it is read or not, and its numbers are new or not. -/
theorem verseAt_cases {config : RenderConfig} (hr : config.renderVerses = true)
    {found : VerseSet} {seen : List VerseMarker} (hseen : ∀ n, n ∈ found ↔ ∃ m ∈ seen, n ∈ m)
    (o : Occurrence) :
    (∃ e, VerseMarker.parse (o.group 0).text = .error e ∧
      verseAt config found o = (o.raw, found)) ∨
    ∃ m, VerseMarker.parse (o.group 0).text = .ok m ∧
      (seen.any m.meets = true ∧ verseAt config found o = (∅, found) ∨
        seen.any m.meets = false ∧
        ∃ more, (∀ n, n ∈ more ↔ ∃ k ∈ m :: seen, n ∈ k) ∧
          verseAt config found o =
            (if config.expected.admits m then verseLabel config m else ∅, more)) := by
  rw [verseAt, if_pos hr]
  cases hp : VerseMarker.parse (o.group 0).text with
  | error e => exact .inl ⟨e, rfl, rfl⟩
  | ok m =>
    refine .inr ⟨m, rfl, ?_⟩
    have hmeets : seen.any m.meets = true ↔ found.insert? m = none := by
      rw [VerseSet.insert?_eq_none_iff, VerseSet.overlaps_iff, List.any_eq_true]
      constructor
      · rintro ⟨k, hk, hm⟩
        obtain ⟨n, hnm, hnk⟩ := VerseMarker.meets_iff.mp hm
        exact ⟨n, hnm, (hseen n).mpr ⟨k, hk, hnk⟩⟩
      · rintro ⟨n, hnm, hn⟩
        obtain ⟨k, hk, hnk⟩ := (hseen n).mp hn
        exact ⟨k, hk, VerseMarker.meets_iff.mpr ⟨n, hnm, hnk⟩⟩
    cases hi : found.insert? m with
    | none => exact .inl ⟨hmeets.mpr hi, by simp [hi]⟩
    | some more =>
      refine .inr ⟨?_, more, fun n => ?_, by simp [hi]⟩
      · rw [Bool.eq_false_iff]
        intro h
        rw [hmeets, hi] at h
        cases h
      · rw [VerseSet.mem_of_insert? hi n, hseen n, List.exists_mem_cons_iff]

/-- The run of the scan: from a set with the numbers of `seen`, its labels are those of the
admitted markers that are accepted after `seen`, and its set has their numbers besides. -/
theorem answers_verseAt {config : RenderConfig} (hr : config.renderVerses = true) (t : StyledText)
    {found : VerseSet} {seen : List VerseMarker} (hseen : ∀ n, n ∈ found ↔ ∃ m ∈ seen, n ∈ m)
    (ms : List Tag.Match) :
    let new := acceptFrom seen (ms.map fun m => ((t.occurrence m).group 0).text)
    (∃ nss, List.Forall₂ (fun p ns => Pinned p.2.chars ns) (answers t (verseAt config) found ms).1
        nss ∧
      nss.flatten = if config.verseHandler then new.filter config.expected.admits else []) ∧
    ∀ n, n ∈ (answers t (verseAt config) found ms).2 ↔
      (∃ m ∈ seen, n ∈ m) ∨ ∃ m ∈ new, n ∈ m := by
  induction ms generalizing found seen with
  | nil => exact ⟨⟨[], .nil, by simp [acceptFrom]⟩, by simp [answers, acceptFrom, hseen]⟩
  | cons m ms ih =>
    simp only [answers, List.map_cons]
    rcases verseAt_cases hr hseen (t.occurrence m) with
      ⟨e, hp, hv⟩ | ⟨k, hp, ⟨hk, hv⟩ | ⟨hk, more, hmore, hv⟩⟩
    · obtain ⟨⟨nss, hall, hflat⟩, hset⟩ := ih hseen
      simp only [hv, acceptFrom, hp]
      exact ⟨⟨[] :: nss, .cons (.plain _) hall, hflat⟩, hset⟩
    · obtain ⟨⟨nss, hall, hflat⟩, hset⟩ := ih hseen
      simp only [hv, acceptFrom, hp, if_pos hk]
      exact ⟨⟨[] :: nss, .cons .nil hall, hflat⟩, hset⟩
    · obtain ⟨⟨nss, hall, hflat⟩, hset⟩ := ih hmore
      simp only [hv, acceptFrom, hp, hk, Bool.false_eq_true, if_false]
      constructor
      · by_cases ha : config.expected.admits k = true
        · have hlabel := pinned_verseLabel config k
          rw [if_pos ha]
          refine ⟨_ :: nss, .cons hlabel hall, ?_⟩
          rw [List.flatten_cons, hflat, List.filter_cons_of_pos ha]
          split <;> rfl
        · rw [if_neg ha]
          refine ⟨[] :: nss, .cons .nil hall, ?_⟩
          rw [List.flatten_cons, hflat, List.filter_cons_of_neg ha]
          rfl
      · intro n
        rw [hset n, List.exists_mem_cons_iff, List.exists_mem_cons_iff, or_assoc, or_left_comm]

theorem map_text_group (t : StyledText) :
    ((Tag.Pattern.verse.matches t.text).map fun m => ((t.occurrence m).group 0).text) =
      verseNumbers t.text := by
  rw [verseNumbers]
  refine List.map_congr_left fun m hm => ?_
  exact StyledText.text_group hm 0

/-- A stage that renders verses puts the labels of the absent ones before the text. -/
theorem verseOutput_eq_labels {config : RenderConfig} (hr : config.renderVerses = true)
    (t : StyledText) : verseOutput config t =
      .concat ((config.expected.absent (acceptedVerses t.text)).map fun n =>
        (VerseMarker.single n).render config.verseHandler) ++
        t.rewritten .verse (verseAt config) ∅ := by
  have hempty : ∀ n, n ∈ (∅ : VerseSet) ↔ ∃ m ∈ ([] : List VerseMarker), n ∈ m := by simp
  obtain ⟨-, hset⟩ := answers_verseAt hr t hempty (Tag.Pattern.verse.matches t.text)
  rw [map_text_group, ← acceptedVerses] at hset
  rw [verseOutput, if_pos hr, missingLabels, ExpectedVerses.missing_eq_absent]
  simpa using hset

/-- A stage that renders verses puts the labels of the absent ones before a text that has those
of the admitted ones. -/
theorem verseOutput_eq {config : RenderConfig} (hr : config.renderVerses = true) {t : StyledText}
    (ht : ∀ c ∈ t.chars, c.2.Unpinned) :
    ∃ rest, verseOutput config t =
        .concat ((config.expected.absent (acceptedVerses t.text)).map fun n =>
          (VerseMarker.single n).render config.verseHandler) ++ rest ∧
      Pinned rest.chars (if config.verseHandler then
        (acceptedVerses t.text).filter config.expected.admits else []) := by
  have hempty : ∀ n, n ∈ (∅ : VerseSet) ↔ ∃ m ∈ ([] : List VerseMarker), n ∈ m := by simp
  obtain ⟨⟨nss, hall, hflat⟩, -⟩ :=
    answers_verseAt hr t hempty (Tag.Pattern.verse.matches t.text)
  rw [map_text_group, ← acceptedVerses] at hflat
  refine ⟨t.rewritten .verse (verseAt config) ∅, verseOutput_eq_labels hr t, ?_⟩
  rw [StyledText.rewritten, StyledText.chars_ofChars, ← hflat]
  exact pinned_weave_of_unpinned ht hall 0

/-- From a text without pins the verse stage gives one whose pins are the exposed markers. -/
theorem pinned_verseOutput (config : RenderConfig) {t : StyledText}
    (ht : ∀ c ∈ t.chars, c.2.Unpinned) :
    Pinned (verseOutput config t).chars (exposed config (acceptedVerses t.text)) := by
  by_cases hr : config.renderVerses = true
  · obtain ⟨rest, hout, hrest⟩ := verseOutput_eq hr ht
    rw [hout, StyledText.chars_append]
    have h := (pinned_labels config.verseHandler
      (config.expected.absent (acceptedVerses t.text))).append hrest
    cases hv : config.verseHandler <;> simp only [exposed, hr, hv] at h ⊢ <;> exact h
  · have hnone : ∀ o, verseAt config ∅ o = (∅, ∅) := fun o => by rw [verseAt, if_neg hr]
    have hanswers (ms : List Tag.Match) :
        List.Forall₂ (fun p ns => Pinned p.2.chars ns) (answers t (verseAt config) ∅ ms).1
          (ms.map fun _ => []) := by
      induction ms with
      | nil => exact .nil
      | cons m ms ih =>
        simp only [answers, hnone]
        exact .cons .nil ih
    have h := pinned_weave_of_unpinned ht (hanswers (Tag.Pattern.verse.matches t.text)) 0
    simp only [exposed, hr, verseOutput, if_false, Bool.false_and, Bool.false_eq_true]
    rw [StyledText.rewritten, StyledText.chars_ofChars]
    simpa using h

/-! ## Coverage -/

theorem acceptedVerses_apart (text : List Char) : (acceptedVerses text).Pairwise Apart :=
  (VerseMarker.acceptFrom_apart [] (verseNumbers text)).1

theorem fits_of_mem_acceptedVerses {text : List Char} {m : VerseMarker}
    (h : m ∈ acceptedVerses text) : m.Fits :=
  ((VerseMarker.acceptFrom_apart [] (verseNumbers text)).2 m h).1

theorem filter_admits {e : ExpectedVerses} {lo hi : Nat} (h : e.bounds? = some (lo, hi))
    (ms : List VerseMarker) :
    ms.filter e.admits = ms.filter fun m => lo ≤ m.first ∧ m.last ≤ hi := by
  refine List.filter_congr fun m _ => ?_
  rw [Bool.eq_iff_iff, ExpectedVerses.admits_iff h, decide_eq_true_iff]

theorem filter_admits_of_unbounded {e : ExpectedVerses} (h : e.bounds? = none)
    (ms : List VerseMarker) : ms.filter e.admits = ms :=
  List.filter_eq_self.mpr fun m _ => by rw [ExpectedVerses.admits, h]

/-- An expected number is exposed unless its accepted marker goes past a bound. -/
theorem exists_mem_exposed_iff {config : RenderConfig} (hr : config.renderVerses = true)
    (hh : config.verseHandler = true) {lo hi : Nat}
    (hb : config.expected.bounds? = some (lo, hi)) {ms : List VerseMarker} (ha : ms.Pairwise Apart)
    {n : Nat} (hlo : lo ≤ n) (hhi : n ≤ hi) :
    (∃ m ∈ exposed config ms, n ∈ m) ↔ ¬ ∃ m ∈ ms, n ∈ m ∧ (m.first < lo ∨ hi < m.last) := by
  simp only [exposed, hr, hh, Bool.and_self, if_true]
  constructor
  · rintro ⟨m, hm, hnm⟩ ⟨k, hk, hnk, hout⟩
    rcases List.mem_append.mp hm with hm | hm
    · obtain ⟨j, hj, rfl⟩ := List.mem_map.mp hm
      obtain rfl := VerseMarker.mem_single.mp hnm
      exact (ExpectedVerses.mem_absent.mp hj).2 k hk hnk
    · obtain ⟨hm, hadmits⟩ := List.mem_filter.mp hm
      obtain ⟨h1, h2⟩ := (ExpectedVerses.admits_iff hb m).mp hadmits
      have hmk := VerseMarker.eq_of_mem_of_mem ha hm hk hnm hnk
      subst hmk
      omega
  · intro hnone
    by_cases hex : ∃ m ∈ ms, n ∈ m
    · obtain ⟨m, hm, hnm⟩ := hex
      have hin : lo ≤ m.first ∧ m.last ≤ hi := by
        refine ⟨Nat.le_of_not_lt fun h => ?_, Nat.le_of_not_lt fun h => ?_⟩
        · exact hnone ⟨m, hm, hnm, .inl h⟩
        · exact hnone ⟨m, hm, hnm, .inr h⟩
      have hadmits := (ExpectedVerses.admits_iff hb m).mpr hin
      exact ⟨m, List.mem_append_right _ (List.mem_filter.mpr ⟨hm, hadmits⟩), hnm⟩
    · have habsent : n ∈ config.expected.absent ms := by
        refine ExpectedVerses.mem_absent.mpr ⟨⟨lo, hi, hb, hlo, hhi⟩, fun m hm hnm => ?_⟩
        exact hex ⟨m, hm, hnm⟩
      refine ⟨.single n, List.mem_append_left _ (List.mem_map.mpr ⟨n, habsent, rfl⟩), ?_⟩
      exact VerseMarker.mem_single.mpr rfl

/-- **Each expected number is covered once, and no other number is.** The exception is a number
whose accepted tag goes past a bound: it is covered by none. The labels of numbers without an
accepted tag stand before all text, ascending; those of the admitted tags follow in order. -/
theorem verse_coverage (config : RenderConfig) (text : List Char)
    (hr : config.renderVerses = true) (hh : config.verseHandler = true)
    (hb : config.expected.Fits) :
    ∃ out, Stage.verse.run config (.always false) (.plain text) = some out ∧
      (config.expected.bounds? = none → out.verseMarkers = (acceptedVerses text).map .ok) ∧
      ∀ lo hi, config.expected.bounds? = some (lo, hi) →
        (∀ n, ¬ (lo ≤ n ∧ n ≤ hi) → out.timesCovered n = 0) ∧
        (∀ n, lo ≤ n → n ≤ hi → out.timesCovered n =
          if ∃ m ∈ acceptedVerses text, n ∈ m ∧ (m.first < lo ∨ hi < m.last) then 0 else 1) ∧
        let absent :=
          (List.range' lo (hi + 1 - lo)).filter fun n => ∀ m ∈ acceptedVerses text, n ∉ m
        let admitted := (acceptedVerses text).filter fun m => lo ≤ m.first ∧ m.last ≤ hi
        ∃ rest,
          out = .concat (absent.map fun n => (VerseMarker.single n).render true) ++ rest ∧
          rest.verseMarkers = admitted.map .ok ∧
          out.verseMarkers = (absent.map VerseMarker.single ++ admitted).map .ok := by
  have hplain : ∀ c ∈ (StyledText.plain text).chars, c.2.Unpinned :=
    Pinned.nil_iff.mp (.plain text)
  have htext : (StyledText.plain text).text = text := StyledText.text_plain text
  have hpins := pinned_verseOutput config hplain
  obtain ⟨rest, hout, hrest⟩ := verseOutput_eq hr hplain
  rw [htext] at hpins hout hrest
  have ha := acceptedVerses_apart text
  have hapart := exposed_apart config ha
  have hfits : ∀ m ∈ exposed config (acceptedVerses text), m.Fits :=
    exposed_fits hb fun _ => fits_of_mem_acceptedVerses
  have hmarkers := StyledText.verseMarkers_of_pinned hpins hfits hapart
  refine ⟨verseOutput config (.plain text), ?_, fun hnone => ?_, fun lo hi hbounds => ⟨?_, ?_, ?_⟩⟩
  · rw [Stage.run_always, Stage.apply_verse]
  · rw [hmarkers, exposed, hr, hh, filter_admits_of_unbounded hnone, ExpectedVerses.absent, hnone]
    rfl
  · intro n hn
    rw [StyledText.timesCovered_of_pinned hpins hfits hapart, if_neg]
    rintro ⟨m, hm, hnm⟩
    obtain ⟨hlo, hhi⟩ := exposed_within hbounds m hm
    exact hn ⟨Nat.le_trans hlo hnm.1, Nat.le_trans hnm.2 hhi⟩
  · intro n hlo hhi
    rw [StyledText.timesCovered_of_pinned hpins hfits hapart, ← ite_not]
    simp only [exists_mem_exposed_iff hr hh hbounds ha hlo hhi, not_not]
  · rw [hh, if_pos rfl] at hrest
    refine ⟨rest, ?_, ?_, ?_⟩
    · rw [hout, hh, ExpectedVerses.absent, hbounds]
    · rw [← filter_admits hbounds]
      refine StyledText.verseMarkers_of_pinned hrest (fun m hm => ?_) (ha.filter _)
      exact fits_of_mem_acceptedVerses (List.mem_filter.mp hm).1
    · rw [hmarkers, exposed, hr, hh, filter_admits hbounds, ExpectedVerses.absent, hbounds]
      rfl

/-- The tag `2-5` goes past the bounds 1 and 3: it leaves verse 2 uncovered, and verse 1, which has
no tag, gets a label. -/
theorem verse_coverage_past_bound :
    let config : RenderConfig := { expected := .range 1 3 (by decide), verseHandler := true }
    let text := "<verse number=\"2-5\" style=\"v\"/>a<verse number=\"3\" style=\"v\"/>".toList
    config.renderVerses = true ∧ config.verseHandler = true ∧ config.expected.Fits ∧
      ∃ out, Stage.verse.run config (.always false) (.plain text) = some out ∧
        out.timesCovered 1 = 1 ∧ out.timesCovered 2 = 0 ∧ out.timesCovered 4 = 0 := by
  intro config text
  have hfits : config.expected.Fits := by
    rintro lo hi ⟨⟩
    decide
  have hbounds : config.expected.bounds? = some (1, 3) := rfl
  have haccepted : acceptedVerses text = [⟨2, 5, by decide⟩] := by decide
  obtain ⟨out, hrun, -, hbounded⟩ := verse_coverage config text rfl rfl hfits
  obtain ⟨hout, hin, -⟩ := hbounded 1 3 hbounds
  rw [haccepted] at hin
  refine ⟨rfl, rfl, hfits, out, hrun, ?_, ?_, hout 4 (by decide)⟩
  · rw [hin 1 (by decide) (by decide)]
    decide
  · rw [hin 2 (by decide) (by decide)]
    decide

end Passage
