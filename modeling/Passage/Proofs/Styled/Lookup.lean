import Passage.Proofs.Styled.Slices

/-! The styled characters of a held text, found by looking up the styles of the mark over each one.
For the held form of a styled text these are the characters of its runs (`placedChars_ranged`). A
slice at clear offsets succeeds and has the characters whose bytes lie in its span
(`slice?_of_clear`). -/

namespace Passage

/-- The span has all positions of another one. -/
def Span.holds (s p : Span) : Bool :=
  s.start ≤ p.start && p.stop ≤ s.stop

namespace RangedText

/-- The characters with the bytes that each takes, and with the styles of the mark over them. -/
def placedChars (t : RangedText) : List (Span × StyledChar) :=
  (Text.placedFrom 0 t.text).map fun p => (p.1, p.2, (t.stylesAt? p.1.start).getD ∅)

/-- The characters, each with the styles of the mark over it. -/
def chars (t : RangedText) : List StyledChar :=
  t.placedChars.map Prod.snd

end RangedText

namespace Run

def placedChars (offset : Nat) (r : Run) : List (Span × StyledChar) :=
  (Text.placedFrom offset r.text).map fun p => (p.1, p.2, r.styles)

def placedCharsFrom (offset : Nat) (rs : List Run) : List (Span × StyledChar) :=
  (placedFrom offset rs).flatMap fun p => p.2.placedChars p.1.start

theorem placedCharsFrom_cons (offset : Nat) (r : Run) (rs : List Run) :
    placedCharsFrom offset (r :: rs) =
      r.placedChars offset ++ placedCharsFrom (offset + Text.byteLength r.text) rs := by
  rw [placedCharsFrom, placedFrom, List.flatMap_cons]
  rfl

theorem map_snd_placedChars (offset : Nat) (r : Run) :
    (r.placedChars offset).map Prod.snd = r.chars := by
  rw [placedChars, chars, ← Text.map_snd_placedFrom offset r.text, List.map_map, List.map_map,
    Text.map_snd_placedFrom]
  rfl

theorem map_snd_placedCharsFrom (offset : Nat) (rs : List Run) :
    (placedCharsFrom offset rs).map Prod.snd = charsOf rs := by
  induction rs generalizing offset with
  | nil => rfl
  | cons r rs ih =>
    rw [placedCharsFrom_cons, List.map_append, map_snd_placedChars, ih, charsOf_cons]

/-- A character lies in the place of its own run and in no other. -/
theorem filter_holds_placedFrom {offset : Nat} {rs : List Run} {p : Span × StyledChar}
    (h : p ∈ placedCharsFrom offset rs) :
    ∃ q, (placedFrom offset rs).filter (fun q => q.1.holds p.1) = [q] ∧ q.2.styles = p.2.2 := by
  induction rs generalizing offset with
  | nil => cases h
  | cons r rs ih =>
    rw [placedCharsFrom_cons] at h
    rw [placedFrom]
    rcases List.mem_append.mp h with h | h
    · obtain ⟨c, hc, rfl⟩ := List.mem_map.mp h
      have hbounds := Text.bounds_of_mem_placedFrom hc
      have hlater : (placedFrom (offset + Text.byteLength r.text) rs).filter
          (fun q => q.1.holds c.1) = [] := by
        refine List.filter_eq_nil_iff.mpr fun q hq => ?_
        have := (place_of_mem_placedFrom hq).1
        simp only [Span.holds, Bool.and_eq_true, decide_eq_true_eq]
        omega
      refine ⟨(⟨offset, offset + Text.byteLength r.text⟩, r), ?_, rfl⟩
      rw [List.filter_cons_of_pos, hlater]
      simp only [Span.holds, Bool.and_eq_true, decide_eq_true_eq]
      omega
    · obtain ⟨q, hq, hstyles⟩ := ih h
      obtain ⟨r', hr', hmem⟩ := List.mem_flatMap.mp h
      obtain ⟨c, hc, rfl⟩ := List.mem_map.mp hmem
      have hbounds := Text.bounds_of_mem_placedFrom hc
      have hstart := (place_of_mem_placedFrom hr').1
      refine ⟨q, ?_, hstyles⟩
      rw [List.filter_cons_of_neg, hq]
      simp only [Span.holds, Bool.and_eq_true, decide_eq_true_eq]
      omega

end Run

namespace RangedText

/-- Looking up in the marks of runs finds the styles of the run that a character is in. -/
theorem lookup_marksFrom (cs : List Char) (offset : Nat) (rs : List Run) :
    (Text.placedFrom offset (rs.flatMap Run.text)).map (fun p =>
        (p.1, p.2, ((⟨cs, Run.marksFrom offset rs⟩ : RangedText).stylesAt? p.1.start).getD ∅)) =
      Run.placedCharsFrom offset rs := by
  induction rs generalizing offset with
  | nil => rfl
  | cons r rs ih =>
    rw [List.flatMap_cons, Text.placedFrom_append, List.map_append, Run.placedCharsFrom_cons,
      ← ih (offset + Text.byteLength r.text)]
    congr 1
    · refine List.map_congr_left fun p hp => ?_
      have := Text.bounds_of_mem_placedFrom hp
      have hlt : ¬ offset + Text.byteLength r.text ≤ p.1.start := by omega
      have hin : offset ≤ p.1.start ∧ p.1.start < offset + Text.byteLength r.text := by omega
      simp [stylesAt?, Run.marksFrom_cons, hlt, hin, Option.filter]
    · refine List.map_congr_left fun p hp => ?_
      have := (Text.bounds_of_mem_placedFrom hp).1
      simp [stylesAt?, Run.marksFrom_cons, this]

theorem placedChars_ranged (t : StyledText) :
    t.ranged.placedChars = Run.placedCharsFrom 0 t.runs :=
  lookup_marksFrom t.text 0 t.runs

@[simp] theorem chars_ranged (t : StyledText) : t.ranged.chars = t.chars := by
  rw [chars, placedChars_ranged, Run.map_snd_placedCharsFrom, StyledText.chars]

theorem ranged_inj {t u : StyledText} : t.ranged = u.ranged ↔ t = u := by
  constructor
  · intro h
    rw [StyledText.eq_iff_chars, ← chars_ranged, h, chars_ranged]
  · exact congrArg StyledText.ranged

end RangedText

/-! ## Slices at clear offsets -/

/-- In text placed in three parts the characters of the middle part are those in its span. -/
theorem Text.filter_placedFrom {offset : Nat} (front mid back : List Char) {s : Span}
    (hstart : max s.start offset = offset + byteLength front)
    (hstop : min s.stop (offset + byteLength (front ++ (mid ++ back))) =
      offset + byteLength front + byteLength mid) :
    (placedFrom offset (front ++ (mid ++ back))).filter (fun p => s.holds p.1) =
      placedFrom (offset + byteLength front) mid := by
  rw [byteLength_append, byteLength_append] at hstop
  rw [placedFrom_append, placedFrom_append, List.filter_append, List.filter_append,
    List.filter_eq_nil_iff.mpr, List.filter_eq_self.mpr, List.filter_eq_nil_iff.mpr,
    List.nil_append, List.append_nil]
  · intro p hp
    have := bounds_of_mem_placedFrom hp
    simp only [Span.holds, Bool.and_eq_true, decide_eq_true_eq]
    omega
  · intro p hp
    have := bounds_of_mem_placedFrom hp
    simp only [Span.holds, Bool.and_eq_true, decide_eq_true_eq]
    omega
  · intro p hp
    have := bounds_of_mem_placedFrom hp
    simp only [Span.holds, Bool.and_eq_true, decide_eq_true_eq]
    omega

/-- A run is cut at clear offsets. -/
theorem Run.sliceBytes?_of_clear {s : Span} {offset : Nat} {r : Run}
    (hstart : Text.ClearFrom offset s.start r.text) (hstop : Text.ClearFrom offset s.stop r.text) :
    ∃ out, sliceBytes? s ⟨offset, offset + Text.byteLength r.text⟩ r = some out ∧
      charsOf out = ((r.placedChars offset).filter fun p => s.holds p.1).map Prod.snd := by
  have hfilter : ((r.placedChars offset).filter fun p => s.holds p.1).map Prod.snd =
      ((Text.placedFrom offset r.text).filter fun p => s.holds p.1).map fun p =>
        (p.2, r.styles) := by
    rw [placedChars, List.filter_map, List.map_map]
    rfl
  rw [hfilter, sliceBytes?]
  simp only
  split
  · rename_i hlt
    have hclear : Text.ClearFrom offset (max s.start offset) r.text := by
      intro p hp
      have := hstart p hp
      have := Text.bounds_of_mem_placedFrom hp
      omega
    obtain ⟨front, rest, htext, hfront⟩ := hclear.split (by omega) (by omega)
    have hlen : Text.byteLength r.text = Text.byteLength front + Text.byteLength rest := by
      rw [htext, Text.byteLength_append]
    have hclear : Text.ClearFrom (offset + Text.byteLength front)
        (min s.stop (offset + Text.byteLength r.text)) rest := by
      intro p hp
      have := (Text.ClearFrom.append.mp (htext ▸ hstop)).2 p hp
      have := Text.bounds_of_mem_placedFrom hp
      omega
    obtain ⟨mid, back, rfl, hmid⟩ := hclear.split (by omega) (by omega)
    have hfilter := Text.filter_placedFrom front mid back (s := s) hfront.symm (by
      rw [← htext]
      exact hmid.symm)
    have htake : min s.stop (offset + Text.byteLength r.text) - max s.start offset =
        Text.byteLength mid := by omega
    have hdrop : max s.start offset - offset = Text.byteLength front := by omega
    refine ⟨[⟨mid, r.styles⟩], ?_, ?_⟩
    · rw [hdrop, htake, htext, Text.dropBytes?_byteLength_append]
      simp [Text.takeBytes?_byteLength_append]
    · have hsnd := Text.map_snd_placedFrom (offset + Text.byteLength front) mid
      rw [charsOf_cons, charsOf_nil, List.append_nil, chars, htext, hfilter, ← hsnd, List.map_map,
        hsnd]
      rfl
  · refine ⟨[], rfl, ?_⟩
    rw [List.filter_eq_nil_iff.mpr]
    · rfl
    · intro p hp
      have := Text.bounds_of_mem_placedFrom hp
      simp only [Span.holds, Bool.and_eq_true, decide_eq_true_eq]
      omega

theorem Run.mapM_sliceBytes?_of_clear {s : Span} {offset : Nat} {rs : List Run}
    (hstart : Text.ClearFrom offset s.start (rs.flatMap Run.text))
    (hstop : Text.ClearFrom offset s.stop (rs.flatMap Run.text)) :
    ∃ out, (placedFrom offset rs).mapM (fun p => sliceBytes? s p.1 p.2) = some out ∧
      charsOf out.flatten = ((placedCharsFrom offset rs).filter fun p => s.holds p.1).map Prod.snd := by
  induction rs generalizing offset with
  | nil => exact ⟨[], rfl, rfl⟩
  | cons r rs ih =>
    rw [List.flatMap_cons, Text.ClearFrom.append] at hstart hstop
    obtain ⟨out, hout, hchars⟩ := ih hstart.2 hstop.2
    obtain ⟨first, hfirst, hr⟩ := sliceBytes?_of_clear hstart.1 hstop.1
    refine ⟨first :: out, by simp [placedFrom, hfirst, hout], ?_⟩
    rw [List.flatten_cons, charsOf_append, hr, hchars, placedCharsFrom_cons, List.filter_append,
      List.map_append]

/-- **A slice at clear offsets succeeds** and has the characters whose bytes lie in its span. -/
theorem StyledText.slice?_of_clear {t : StyledText} {s : Span} (hstart : Text.Clear s.start t.text)
    (hstop : Text.Clear s.stop t.text) :
    ∃ u, t.slice? s = some u ∧
      u.chars = ((Run.placedCharsFrom 0 t.runs).filter fun p => s.holds p.1).map Prod.snd := by
  obtain ⟨out, hout, hchars⟩ := Run.mapM_sliceBytes?_of_clear hstart hstop
  refine ⟨ofRuns out.flatten, ?_, ?_⟩
  · rw [slice?, placed, hout, Option.map_some]
  · rw [chars_ofRuns, hchars]

theorem Text.length_placedFrom (offset : Nat) (cs : List Char) :
    (placedFrom offset cs).length = cs.length := by
  have h := congrArg List.length (map_snd_placedFrom offset cs)
  rwa [List.length_map] at h

/-- **The slice at the bytes of a part** of a text is that part. -/
theorem StyledText.slice?_part {t : StyledText} {front mid back : List Char}
    (h : t.text = front ++ (mid ++ back)) :
    t.slice? ⟨Text.byteLength front, Text.byteLength front + Text.byteLength mid⟩ =
      some (t.extract ⟨front.length, front.length + mid.length⟩) := by
  have hstart : Text.Boundary (Text.byteLength front) t.text := ⟨front, mid ++ back, h, rfl⟩
  have hstop : Text.Boundary (Text.byteLength front + Text.byteLength mid) t.text :=
    ⟨front ++ mid, back, by rw [h, List.append_assoc], Text.byteLength_append front mid⟩
  obtain ⟨u, hu, hchars⟩ := @slice?_of_clear t
    ⟨Text.byteLength front, Text.byteLength front + Text.byteLength mid⟩ hstart.clear hstop.clear
  have hfilter := @Text.filter_placedFrom 0 front mid back
    ⟨Text.byteLength front, Text.byteLength front + Text.byteLength mid⟩ (by simp) (by
      rw [Text.byteLength_append, Text.byteLength_append]
      dsimp only
      omega)
  rw [hu, Option.some_inj, eq_iff_chars, chars_extract, hchars, ← RangedText.chars_ranged t,
    RangedText.chars, ← RangedText.placedChars_ranged, RangedText.placedChars, List.filter_map]
  simp only [Function.comp_def, text_ranged, h, hfilter, Nat.zero_add, Nat.add_sub_cancel_left]
  rw [Text.placedFrom_append, Text.placedFrom_append, List.map_append, List.map_append,
    List.map_append, List.map_append, List.drop_left' (by simp [Text.length_placedFrom]),
    List.take_left' (by simp [Text.length_placedFrom]), Nat.zero_add]

end Passage
