import Passage.Styled.Offset

/-! Places of runs. A slice at the bytes of a run gives the run back: the runs before it end where
it starts or earlier, and those after it start where it ends or later (`slice?_of_mem_placed`). -/

namespace Passage

namespace Run

/-- A run is placed at or after the offset, and over as many bytes as it has. -/
theorem place_of_mem_placedFrom {offset : Nat} {rs : List Run} {p : Span × Run}
    (h : p ∈ placedFrom offset rs) :
    offset ≤ p.1.start ∧ p.1.stop = p.1.start + Text.byteLength p.2.text := by
  induction rs generalizing offset with
  | nil => cases h
  | cons r rs ih =>
    rcases List.mem_cons.mp h with rfl | h
    · exact ⟨Nat.le_refl _, rfl⟩
    · have := ih h
      exact ⟨Nat.le_trans (Nat.le_add_right _ _) this.1, this.2⟩

/-- Runs at or after the end of a span contribute nothing to its slice. -/
theorem mapM_sliceBytes?_of_stop_le {s : Span} {offset : Nat} (h : s.stop ≤ offset)
    (rs : List Run) :
    ∃ out, (placedFrom offset rs).mapM (fun p => sliceBytes? s p.1 p.2) = some out ∧
      out.flatten = [] := by
  induction rs generalizing offset with
  | nil => exact ⟨[], rfl, rfl⟩
  | cons r rs ih =>
    obtain ⟨out, hout, hnil⟩ :=
      ih (Nat.le_trans h (Nat.le_add_right offset (Text.byteLength r.text)))
    have hr : sliceBytes? s ⟨offset, offset + Text.byteLength r.text⟩ r = some [] := by
      rw [sliceBytes?, if_neg]
      simp only
      omega
    exact ⟨[] :: out, by simp [placedFrom, hr, hout], hnil⟩

theorem sliceBytes?_self {r : Run} (h : r.text ≠ []) (offset : Nat) :
    sliceBytes? ⟨offset, offset + Text.byteLength r.text⟩
      ⟨offset, offset + Text.byteLength r.text⟩ r = some [r] := by
  have hpos : Text.byteLength r.text ≠ 0 := fun e => h (Text.byteLength_eq_zero_iff.mp e)
  have hdrop := Text.dropBytes?_byteLength_append [] r.text
  have htake := Text.takeBytes?_byteLength_append r.text []
  rw [List.append_nil] at htake
  rw [sliceBytes?]
  simp only [Nat.max_self, Nat.min_self, Nat.sub_self, Nat.add_sub_cancel_left]
  rw [if_pos (by omega)]
  rw [show Text.byteLength [] = 0 from rfl, List.nil_append] at hdrop
  simp [hdrop, htake]

/-- The slice at the place of a run. -/
theorem mapM_sliceBytes?_of_mem {p : Span × Run} (hne : p.2.text ≠ []) {offset : Nat}
    {rs : List Run} (h : p ∈ placedFrom offset rs) :
    ∃ out, (placedFrom offset rs).mapM (fun q => sliceBytes? p.1 q.1 q.2) = some out ∧
      out.flatten = [p.2] := by
  induction rs generalizing offset with
  | nil => cases h
  | cons r rs ih =>
    rcases List.mem_cons.mp h with rfl | h
    · obtain ⟨out, hout, hnil⟩ := mapM_sliceBytes?_of_stop_le
        (s := ⟨offset, offset + Text.byteLength r.text⟩) (Nat.le_refl _) rs
      exact ⟨[r] :: out, by simp [placedFrom, sliceBytes?_self hne, hout], by simp [hnil]⟩
    · obtain ⟨out, hout, hflat⟩ := ih h
      have hstart := (place_of_mem_placedFrom h).1
      have hr : sliceBytes? p.1 ⟨offset, offset + Text.byteLength r.text⟩ r = some [] := by
        rw [sliceBytes?, if_neg]
        simp only
        omega
      exact ⟨[] :: out, by simp [placedFrom, hr, hout], hflat⟩

end Run

theorem StyledText.mem_runs_of_mem_placed {t : StyledText} {p : Span × Run} (h : p ∈ t.placed) :
    p.2 ∈ t.runs := by
  rw [← Run.map_snd_placedFrom 0 t.runs]
  exact List.mem_map_of_mem h

/-- **The slice at the place of a run is the run.** -/
theorem StyledText.slice?_of_mem_placed {t : StyledText} {p : Span × Run} (h : p ∈ t.placed)
    (hne : p.2.text ≠ []) : t.slice? p.1 = some (.styled p.2.text p.2.styles) := by
  obtain ⟨out, hout, hflat⟩ := Run.mapM_sliceBytes?_of_mem hne h
  rw [slice?, placed, hout, Option.map_some, hflat]
  rfl

end Passage
