import Mathlib.Data.List.Chain
import Passage.Proofs.Styled.Chars
import Passage.Styled.Ranged

/-! The held form follows the text. Each operation on held texts, which counts bytes, gives the
held form of what the operation on styled texts gives; it fails only where a slice has to cut
inside a character, and there both fail (`ranged_slice?`). All of these come from one fact: a list
of runs that is canonical and has the characters of a text is the list of its runs
(`StyledText.runs_eq`). -/

namespace Passage

namespace Run

theorem canonical_iff {rs : List Run} :
    Canonical rs ↔ (∀ r ∈ rs, r.text ≠ []) ∧ rs.IsChain fun r s => r.styles ≠ s.styles := by
  induction rs with
  | nil => simp [Canonical]
  | cons r rs ih =>
    cases rs with
    | nil => simp [Canonical]
    | cons s rest =>
      simp only [Canonical, ih, List.isChain_cons_cons, List.forall_mem_cons]
      tauto

@[simp] theorem marksFrom_nil (offset : Nat) : marksFrom offset [] = [] := rfl

theorem marksFrom_cons (offset : Nat) (r : Run) (rs : List Run) :
    marksFrom offset (r :: rs) =
      ⟨⟨offset, offset + Text.byteLength r.text⟩, r.styles⟩ ::
        marksFrom (offset + Text.byteLength r.text) rs :=
  rfl

theorem marksFrom_append (offset : Nat) (rs ss : List Run) :
    marksFrom offset (rs ++ ss) =
      marksFrom offset rs ++ marksFrom (offset + Text.byteLength (rs.flatMap Run.text)) ss := by
  rw [marksFrom, placedFrom_append, List.map_append]
  rfl

theorem flatMap_text (rs : List Run) : rs.flatMap Run.text = (charsOf rs).map Prod.fst := by
  induction rs with
  | nil => rfl
  | cons r rs ih => simp [ih, chars, Function.comp_def]

end Run

theorem StyledText.runs_eq {t : StyledText} {rs : List Run} (hc : Run.Canonical rs)
    (h : t.chars = Run.charsOf rs) : t.runs = rs :=
  t.canonical.eq_of_charsOf_eq hc h

theorem StyledText.ranged_eq {t : StyledText} {rs : List Run} (hc : Run.Canonical rs)
    (h : t.chars = Run.charsOf rs) : t.ranged = ⟨rs.flatMap Run.text, Run.marksFrom 0 rs⟩ := by
  rw [ranged, text, runs_eq hc h]

/-! ## Putting text at the end -/

namespace RangedText

/-- A range that goes on where the marks of canonical runs end. -/
theorem extend_marksFrom {rs : List Run} (hc : Run.Canonical rs) {cs : List Char} (hcs : cs ≠ [])
    (styles : StyleSet) :
    ∃ ss, Run.Canonical ss ∧ Run.charsOf ss = Run.charsOf rs ++ Run.chars ⟨cs, styles⟩ ∧
      extend (Run.marksFrom 0 rs)
        ⟨Text.byteLength (rs.flatMap Run.text), Text.byteLength (rs.flatMap Run.text ++ cs)⟩ styles =
        Run.marksFrom 0 ss := by
  rcases List.eq_nil_or_concat rs with rfl | ⟨front, r, rfl⟩
  · refine ⟨[⟨cs, styles⟩], hcs, by simp, ?_⟩
    simp [extend, Run.marksFrom_cons, Text.byteLength]
  · rw [List.concat_eq_append] at hc ⊢
    have hbytes : Text.byteLength ((front ++ [r]).flatMap Run.text ++ cs) =
        0 + Text.byteLength (front.flatMap Run.text) + Text.byteLength (r.text ++ cs) := by
      simp [Text.byteLength_append]
    rw [Run.canonical_iff] at hc
    obtain ⟨hne, hchain⟩ := hc
    by_cases hs : r.styles = styles
    · -- the last run grows
      refine ⟨front ++ [⟨r.text ++ cs, styles⟩], Run.canonical_iff.mpr ⟨?_, ?_⟩, ?_, ?_⟩
      · intro s hmem
        rcases List.mem_append.mp hmem with h | h
        · exact hne s (List.mem_append_left _ h)
        · rw [List.mem_singleton.mp h]
          simp [hcs]
      · rw [List.isChain_append] at hchain ⊢
        refine ⟨hchain.1, List.isChain_singleton _, fun a ha b hb => ?_⟩
        rw [List.head?_cons, Option.mem_some_iff] at hb
        subst hb
        exact hs ▸ hchain.2.2 a ha r rfl
      · simp [Run.chars, hs]
      · rw [hbytes, Run.marksFrom_append, Run.marksFrom_append]
        simp [extend, Run.marksFrom_cons, hs]
    · refine ⟨front ++ [r] ++ [⟨cs, styles⟩], Run.canonical_iff.mpr ⟨?_, ?_⟩, ?_, ?_⟩
      · intro s hmem
        rcases List.mem_append.mp hmem with h | h
        · exact hne s h
        · rw [List.mem_singleton.mp h]
          exact hcs
      · rw [List.isChain_append]
        refine ⟨hchain, List.isChain_singleton _, fun a ha b hb => ?_⟩
        rw [List.getLast?_concat, Option.mem_some_iff] at ha
        rw [List.head?_cons, Option.mem_some_iff] at hb
        subst ha hb
        exact hs
      · simp
      · rw [Run.marksFrom_append 0 (front ++ [r])]
        simp [extend, Run.marksFrom_append, Run.marksFrom_cons, hs, Text.byteLength_append,
          Nat.add_assoc]

theorem ranged_push (t : StyledText) (cs : List Char) (styles : StyleSet) :
    t.ranged.push cs styles = (t ++ .styled cs styles).ranged := by
  rw [push]
  by_cases hcs : cs = []
  · subst hcs
    have h : t ++ .styled [] styles = t := by simp [StyledText.eq_iff_chars]
    rw [h]
    rfl
  · rw [if_neg (by simpa using hcs)]
    obtain ⟨ss, hss, hchars, hmarks⟩ := extend_marksFrom t.canonical hcs styles
    have hc : (t ++ .styled cs styles).chars = Run.charsOf ss := by
      rw [hchars, StyledText.chars_append, StyledText.chars_styled]
      rfl
    rw [StyledText.ranged_eq hss hc, ← hmarks, Run.flatMap_text ss, hchars]
    simp [StyledText.ranged, StyledText.text, Run.flatMap_text, Run.chars, Function.comp_def]

theorem ranged_pushAll (t : StyledText) (rs : List Run) :
    t.ranged.pushAll rs = (t ++ .ofRuns rs).ranged := by
  induction rs generalizing t with
  | nil => exact congrArg StyledText.ranged (StyledText.append_empty t).symm
  | cons r rs ih =>
    rw [pushAll, List.foldl_cons, ranged_push]
    refine (ih _).trans (congrArg StyledText.ranged ?_)
    simp [StyledText.eq_iff_chars, Run.chars]

theorem ranged_empty : (∅ : StyledText).ranged = empty := rfl

theorem pushAll_empty (rs : List Run) : empty.pushAll rs = (StyledText.ofRuns rs).ranged := by
  rw [← ranged_empty, ranged_pushAll, StyledText.empty_append]

/-! ## Reading the marks -/

/-- The runs are read back from the marks, wherever they stand in a text. -/
theorem mapM_sliceBytes? (front back : List Char) (rs : List Run) :
    (Run.marksFrom (Text.byteLength front) rs).mapM (fun m =>
      (Text.sliceBytes? m.range (front ++ (rs.flatMap Run.text ++ back))).map fun cs =>
        (⟨cs, m.styles⟩ : Run)) = some rs := by
  induction rs generalizing front with
  | nil => rfl
  | cons r rs ih =>
    have h := ih (front ++ r.text)
    rw [Text.byteLength_append, List.append_assoc] at h
    have hr := Text.sliceBytes?_append front r.text (rs.flatMap Run.text ++ back)
    simp only [Run.marksFrom_cons, List.flatMap_cons, List.append_assoc, List.mapM_cons, hr, h]
    rfl

theorem runs?_ranged (t : StyledText) : t.ranged.runs? = some t.runs := by
  have h := mapM_sliceBytes? [] [] t.runs
  rw [List.append_nil, List.nil_append] at h
  exact h

theorem ranged_append? (t u : StyledText) : t.ranged.append? u.ranged = some (t ++ u).ranged := by
  rw [append?, runs?_ranged, Option.map_some, ranged_pushAll, StyledText.ofRuns_runs]

theorem ranged_prepend? (t u : StyledText) :
    t.ranged.prepend? u.ranged = some (u ++ t).ranged :=
  ranged_append? u t

theorem ranged_mapText? (f : List Char → List Char) (t : StyledText) :
    t.ranged.mapText? f = some (t.mapText f).ranged := by
  rw [mapText?, runs?_ranged, Option.map_some, pushAll_empty]
  rfl

/-! ## Adding attributes -/

/-- Joining the marks of runs gives the marks of the canonical list for the same characters. -/
theorem joinMarks_marksFrom (offset : Nat) {r : Run} (hr : r.text ≠ []) {rs : List Run}
    (hrs : ∀ s ∈ rs, s.text ≠ []) :
    joinMarks ⟨⟨offset, offset + Text.byteLength r.text⟩, r.styles⟩
        (Run.marksFrom (offset + Text.byteLength r.text) rs) =
      Run.marksFrom offset (Run.normalize (r :: rs)) := by
  induction rs generalizing offset r with
  | nil =>
    have h : Run.normalize [r] = [r] := Run.normalize_of_canonical hr
    rw [h]
    rfl
  | cons s rest ih =>
    obtain ⟨hs, hrest⟩ := List.forall_mem_cons.mp hrs
    rw [Run.marksFrom_cons, joinMarks]
    by_cases he : r.styles = s.styles
    · have h : Run.normalize (r :: s :: rest) =
          Run.normalize (⟨r.text ++ s.text, r.styles⟩ :: rest) := by
        refine (Run.canonical_normalize _).eq_of_charsOf_eq (Run.canonical_normalize _) ?_
        simp [Run.charsOf_normalize, Run.chars, he]
      have hjoined := ih offset (r := ⟨r.text ++ s.text, r.styles⟩) (by simp [hr]) hrest
      rw [Text.byteLength_append, ← Nat.add_assoc] at hjoined
      rw [if_pos he, h, hjoined]
    · rw [if_neg he, ih _ hs hrest, ← Run.marksFrom_cons]
      refine congrArg (Run.marksFrom offset) ?_
      -- the first run of the rest has the styles of `s`, so `r` stays apart
      have hc : Run.Canonical (r :: Run.normalize (s :: rest)) := by
        have hn := Run.canonical_normalize (s :: rest)
        cases hl : Run.normalize (s :: rest) with
        | nil => exact hr
        | cons x xs =>
          rw [hl] at hn
          refine ⟨hr, fun hx => he ?_, hn⟩
          obtain ⟨c, cs, hcs⟩ := List.exists_cons_of_ne_nil hs
          obtain ⟨d, ds, hds⟩ := List.exists_cons_of_ne_nil hn.text_ne_nil
          have hchars := Run.charsOf_normalize (s :: rest)
          rw [hl, Run.charsOf_cons, Run.charsOf_cons, Run.chars, Run.chars, hcs, hds] at hchars
          rw [hx]
          exact congrArg Prod.snd (List.cons.inj hchars).1
      refine hc.eq_of_charsOf_eq (Run.canonical_normalize _) ?_
      simp only [Run.charsOf_cons, Run.charsOf_normalize]

theorem ranged_addStyles (t : StyledText) (attributes : List Attribute) :
    t.ranged.addStyles attributes = (t.addStyles attributes).ranged := by
  have htext : (t.addStyles attributes).text = t.text := by
    simp [StyledText.text_eq_map_chars, Function.comp_def]
  have hne := (Run.canonical_iff.mp t.canonical).1
  have hmarks (offset : Nat) (rs : List Run) :
      ((Run.marksFrom offset rs).map fun m => (⟨m.range, m.styles.insertAll attributes⟩ : Mark)) =
        Run.marksFrom offset (rs.map fun r => ⟨r.text, r.styles.insertAll attributes⟩) := by
    induction rs generalizing offset with
    | nil => rfl
    | cons r rs ih => simp [Run.marksFrom_cons, ih]
  rw [addStyles, StyledText.ranged, StyledText.ranged, htext, hmarks]
  refine congrArg (RangedText.mk t.text) ?_
  simp only [StyledText.addStyles, StyledText.ofRuns]
  cases hrs : t.runs with
  | nil => rfl
  | cons r rs =>
    rw [hrs] at hne
    obtain ⟨hr, hrs⟩ := List.forall_mem_cons.mp hne
    rw [List.map_cons, Run.marksFrom_cons, coalesce]
    refine joinMarks_marksFrom 0 (r := ⟨r.text, r.styles.insertAll attributes⟩) hr fun s hs => ?_
    obtain ⟨k, hk, rfl⟩ := List.mem_map.mp hs
    exact hrs k hk

end RangedText

end Passage
