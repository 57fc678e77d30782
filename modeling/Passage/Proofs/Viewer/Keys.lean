import Passage.Proofs.Styled.Slices
import Passage.Viewer.State

/-! The viewer under its keys. A key does one of five things (`Step`), and in a sound viewer it does
one of them without fail, because each target starts between two characters of the document
(`exists_step`). What a key keeps, any list of keys keeps (`exists_after`). -/

namespace Passage.Viewer

variable {v w : Viewer} {k : Key} {ks : List Key} {o : KeyOutcome}

/-- What holds of a viewer between two keys. -/
structure Sound (v : Viewer) : Prop where
  regions : v.regions = v.document.regions
  selected : ∀ i, v.selected = some i → i < v.regions.length
  scroll : v.scroll ≤ maxScroll

/-- The status after a region was handed to its handler. -/
def statusAfter (v : Viewer) (region : Region) : String :=
  if v.config.handles region.kind then v.handler region v.status else noHandlerStatus region

inductive Step (v : Viewer) (k : Key) : KeyOutcome → Prop
  | quit : k.quits = true → Step v k ⟨{ v with quit := true }, true, []⟩
  | select {i scroll : Nat} : k.quits = false → k.selects = true → i < v.regions.length →
      scroll ≤ maxScroll → Step v k ⟨{ v with selected := some i, scroll }, true, []⟩
  | activate {i : Nat} {place : Span} {region : Region} : k.quits = false → k.code = .enter →
      v.selected = some i → v.regions[i]? = some (place, region) →
      Step v k ⟨{ v with status := v.statusAfter region }, true, v.config.dispatch region⟩
  | scroll {scroll : Nat} : k.quits = false → k.selects = false → k.code ≠ .enter →
      scroll ≤ maxScroll → Step v k ⟨{ v with scroll }, true, []⟩
  | idle : k.quits = false → (k.selects = true → v.regions = []) →
      (k.code = .enter → v.selected = none) → Step v k ⟨v, false, []⟩

/-! ## One key -/

theorem sound_ofSource (config : RenderConfig) (handler : Region → String → String)
    (status : String) (source : List Char) : Sound (ofSource config handler status source) where
  regions := rfl
  selected := nofun
  scroll := Nat.zero_le _

/-- A target starts between two characters of the document. -/
theorem exists_lineOf? (h : Sound v) {place : Span} {region : Region}
    (hmem : (place, region) ∈ v.regions) : ∃ line, v.lineOf? place.start = some line := by
  rw [h.regions] at hmem
  obtain ⟨p, hp, rfl⟩ := StyledText.exists_mem_placed_of_mem_regions hmem
  obtain ⟨front, -, -, htake, -⟩ := StyledText.exists_text_of_mem_placed hp
  exact ⟨front.count '\n', by rw [lineOf?, htake, Option.map_some]⟩

/-- Selecting a target scrolls to the line that it starts on. -/
theorem exists_select? (h : Sound v) {i : Nat} (hi : i < v.regions.length) :
    ∃ place region line, v.regions[i]? = some (place, region) ∧
      v.lineOf? place.start = some line ∧
      v.select? i = some { v with selected := some i, scroll := min maxScroll (line - 2) } := by
  obtain ⟨⟨place, region⟩, hget⟩ : ∃ p, v.regions[i]? = some p :=
    ⟨_, List.getElem?_eq_getElem hi⟩
  obtain ⟨line, hline⟩ := exists_lineOf? h (List.mem_of_getElem? hget)
  refine ⟨place, region, line, hget, hline, ?_⟩
  simp only [select?, hget, hline, Option.map_some]

theorem nextOf_lt {n : Nat} (hn : 0 < n) (selected : Option Nat) : nextOf n selected < n := by
  cases selected with
  | none => exact hn
  | some i => exact Nat.mod_lt _ hn

theorem previousOf_lt {n : Nat} (hn : 0 < n) {selected : Option Nat}
    (h : ∀ i, selected = some i → i < n) : previousOf n selected < n := by
  match selected with
  | none => exact Nat.sub_lt hn Nat.one_pos
  | some 0 => exact Nat.sub_lt hn Nat.one_pos
  | some (i + 1) =>
    have := h (i + 1) rfl
    rw [previousOf]
    omega

/-- Moving the selection selects a target if there is one. -/
theorem exists_move? (h : Sound v) (hquits : k.quits = false) (hselects : k.selects = true)
    (henter : k.code ≠ .enter) {target : Nat → Option Nat → Nat}
    (htarget : 0 < v.regions.length → target v.regions.length v.selected < v.regions.length) :
    ∃ o, v.move? target = some o ∧ Step v k o := by
  rw [move?]
  by_cases hempty : v.regions = []
  · rw [if_pos (List.isEmpty_iff.mpr hempty)]
    exact ⟨_, rfl, .idle hquits (fun _ => hempty) fun he => absurd he henter⟩
  · rw [if_neg (fun he => hempty (List.isEmpty_iff.mp he))]
    have hi := htarget (List.length_pos_iff.mpr hempty)
    obtain ⟨_, _, line, -, -, hselect⟩ := exists_select? h hi
    rw [hselect]
    exact ⟨_, rfl, .select hquits hselects hi (Nat.min_le_left maxScroll (line - 2))⟩

/-- Activating hands the selected target to its handler, and to no other. -/
theorem step_activate (h : Sound v) (hquits : k.quits = false) (henter : k.code = .enter) :
    Step v k v.activate := by
  have hselects : k.selects = false := by simp [Key.selects, henter]
  rw [activate, selection?]
  cases hsel : v.selected with
  | none => exact .idle hquits (fun he => by simp [hselects] at he) fun _ => hsel
  | some i =>
    obtain ⟨r, hget⟩ : ∃ r, v.regions[i]? = some r :=
      ⟨_, List.getElem?_eq_getElem (h.selected i hsel)⟩
    have hstep := Step.activate hquits henter hsel hget
    rw [Option.bind_some, hget]
    simp only [statusAfter, RenderConfig.dispatch] at hstep ⊢
    split at hstep <;> simp_all

/-- **A key does one of the five things**, and it never fails. -/
theorem exists_step (h : Sound v) (k : Key) : ∃ o, v.press? k = some o ∧ Step v k o := by
  rw [press?]
  by_cases hquits : k.quits = true
  · rw [if_pos hquits]
    exact ⟨_, rfl, .quit hquits⟩
  rw [if_neg hquits]
  have hquits : k.quits = false := by simpa using hquits
  have scrolls {n : Nat} (hn : n ≤ maxScroll) (hcode : k.selects = false ∧ k.code ≠ .enter) :
      ∃ o, some ⟨{ v with scroll := n }, true, []⟩ = some o ∧ Step v k o :=
    ⟨_, rfl, .scroll hquits hcode.1 hcode.2 hn⟩
  have hdown := Nat.min_le_left maxScroll (v.scroll + 1)
  have hup := Nat.le_trans (Nat.sub_le v.scroll 1) h.scroll
  split
  case h_1 hcode =>
    exact exists_move? h hquits (by simp [Key.selects, hcode]) (by simp [hcode])
      fun hn => nextOf_lt hn v.selected
  case h_2 hcode =>
    exact exists_move? h hquits (by simp [Key.selects, hcode]) (by simp [hcode])
      fun hn => previousOf_lt hn h.selected
  case h_3 hcode => exact ⟨_, rfl, step_activate h hquits hcode⟩
  case h_4 hcode => exact scrolls hdown (by simp [Key.selects, hcode])
  case h_5 hcode => exact scrolls hdown (by simp [Key.selects, hcode])
  case h_6 hcode => exact scrolls hup (by simp [Key.selects, hcode])
  case h_7 hcode => exact scrolls hup (by simp [Key.selects, hcode])
  case h_8 htab hback henter _ _ _ _ =>
    exact ⟨_, rfl, .idle hquits (fun hs => ((Key.selects_iff.mp hs).elim htab hback).elim)
      fun he => absurd he henter⟩

theorem Step.sound (hstep : Step v k o) (h : Sound v) : Sound o.viewer := by
  cases hstep with
  | quit => exact ⟨h.regions, h.selected, h.scroll⟩
  | select _ _ hi hscroll =>
    exact ⟨h.regions, fun j hj => Option.some.inj hj ▸ hi, hscroll⟩
  | activate => exact ⟨h.regions, h.selected, h.scroll⟩
  | scroll _ _ _ hscroll => exact ⟨h.regions, h.selected, hscroll⟩
  | idle => exact h

/-- What no key changes. -/
structure Same (v w : Viewer) : Prop where
  config : w.config = v.config
  handler : w.handler = v.handler
  document : w.document = v.document
  regions : w.regions = v.regions

theorem Step.same (hstep : Step v k o) : Same v o.viewer := by
  cases hstep <;> exact ⟨rfl, rfl, rfl, rfl⟩

theorem Step.selected_eq_none_iff (hstep : Step v k o) :
    o.viewer.selected = none ↔ v.selected = none ∧ (v.regions = [] ∨ k.selects = false) := by
  cases hstep with
  | quit hquits =>
    have hselects : k.selects = false := by
      simp only [Key.quits, Bool.or_eq_true, Bool.and_eq_true, decide_eq_true_eq] at hquits
      rcases hquits with ⟨hcode, -⟩ | ⟨hcode, -⟩ <;> simp [Key.selects, hcode]
    simp [hselects]
  | select _ hselects hi _ =>
    have hne : v.regions ≠ [] := List.length_pos_iff.mp (Nat.zero_lt_of_lt hi)
    simp [hselects, hne]
  | activate _ henter hsel _ => simp [hsel]
  | scroll _ hselects _ _ => simp [hselects]
  | idle _ hregions _ =>
    cases hselects : k.selects with
    | false => simp
    | true => simp [hregions hselects]

theorem Step.quit_iff (hstep : Step v k o) :
    o.viewer.quit = true ↔ v.quit = true ∨ k.quits = true := by
  cases hstep with
  | quit hquits => simp [hquits]
  | select hquits | activate hquits | scroll hquits | idle hquits => simp [hquits]

/-- A key that is answered as meaningless changes nothing. -/
theorem Step.eq_of_unchanged (hstep : Step v k o) (h : o.changed = false) :
    o.viewer = v ∧ o.calls = [] := by
  cases hstep with
  | idle => exact ⟨rfl, rfl⟩
  | quit | select | activate | scroll => cases h

/-- Only Enter on a selected target calls a handler or writes the status. -/
theorem Step.status_eq (hstep : Step v k o) (h : k.code ≠ .enter ∨ v.selected = none) :
    o.viewer.status = v.status ∧ o.calls = [] := by
  cases hstep with
  | activate _ henter hsel _ =>
    rcases h with h | h
    · exact absurd henter h
    · rw [hsel] at h
      cases h
  | quit | select | scroll | idle => exact ⟨rfl, rfl⟩

/-- Enter on a selected target hands over that target. -/
theorem Step.enter (hstep : Step v k o) (h : k.code = .enter) {i : Nat}
    (hi : v.selected = some i) : ∃ place region, v.regions[i]? = some (place, region) ∧
      o.calls = v.config.dispatch region ∧ o.viewer.status = v.statusAfter region := by
  have hselects : k.selects = false := by simp [Key.selects, h]
  have hquits : k.quits = false := by simp [Key.quits, h]
  cases hstep with
  | activate _ _ hsel hget =>
    rw [hsel] at hi
    cases hi
    exact ⟨_, _, hget, rfl, rfl⟩
  | quit he => simp [hquits] at he
  | select _ he => simp [hselects] at he
  | scroll _ _ he => exact absurd h he
  | idle _ _ he =>
    rw [he h] at hi
    cases hi

/-! ## Lists of keys -/

/-- How a viewer stands to the one that it was before a list of keys. -/
structure After (v : Viewer) (ks : List Key) (w : Viewer) : Prop where
  sound : Sound w
  same : Same v w
  selected : w.selected = none ↔
    v.selected = none ∧ (v.regions = [] ∨ ∀ k ∈ ks, k.selects = false)
  quit : w.quit = true ↔ v.quit = true ∨ ∃ k ∈ ks, k.quits = true

theorem After.nil (h : Sound v) : After v [] v where
  sound := h
  same := ⟨rfl, rfl, rfl, rfl⟩
  selected := by simp
  quit := by simp

theorem After.cons (hstep : Step v k o) (h : After o.viewer ks w) : After v (k :: ks) w where
  sound := h.sound
  same := ⟨h.same.config.trans hstep.same.config, h.same.handler.trans hstep.same.handler,
    h.same.document.trans hstep.same.document, h.same.regions.trans hstep.same.regions⟩
  selected := by
    rw [h.selected, hstep.selected_eq_none_iff, hstep.same.regions, List.forall_mem_cons]
    by_cases hregions : v.regions = []
    · simp [hregions]
    · simp [hregions, and_assoc]
  quit := by rw [h.quit, hstep.quit_iff, List.exists_mem_cons_iff, or_assoc]

/-- A sound viewer takes any keys. -/
theorem exists_after (h : Sound v) (ks : List Key) :
    ∃ w, v.pressAll? ks = some w ∧ After v ks w := by
  induction ks generalizing v with
  | nil => exact ⟨v, rfl, .nil h⟩
  | cons k ks ih =>
    obtain ⟨o, ho, hstep⟩ := exists_step h k
    obtain ⟨w, hw, hafter⟩ := ih (hstep.sound h)
    refine ⟨w, ?_, .cons hstep hafter⟩
    rw [pressAll?, List.foldlM_cons, ho]
    exact hw

/-- **A viewer under any keys.** After any keys the document and its targets are what they were at
the start, and the targets are those of the document; the selection is one of them, and there is
none exactly as long as no key has selected where there is something to select; the scroll position
keeps its bound; and the viewer is to end exactly if one of the keys ended it. The next key does not
fail, an end stays and a selection stays, and a key that is answered as meaningless changes nothing.
The status changes only on Enter with a selection: the selected target is handed to its handler,
once and no other, and the status is what the handler makes of it, or says that there is none. -/
theorem keys_keep (config : RenderConfig) (handler : Region → String → String) (status : String)
    (source : List Char) (ks : List Key) :
    let start := ofSource config handler status source
    ∃ v, start.pressAll? ks = some v ∧
      (v.document = (render config Stage.all (.always false) (.plain source)).text ∧
        v.regions = start.regions ∧ v.regions = v.document.regions) ∧
      (∀ i, v.selected = some i → i < v.regions.length) ∧
      (v.selected = none ↔ v.regions = [] ∨ ∀ k ∈ ks, k.code ≠ .tab ∧ k.code ≠ .backTab) ∧
      v.scroll ≤ 65535 ∧
      (v.quit = true ↔ ∃ k ∈ ks, k.quits = true) ∧
      ∀ k, ∃ o, v.press? k = some o ∧
        (v.quit = true → o.viewer.quit = true) ∧
        (v.selected ≠ none → o.viewer.selected ≠ none) ∧
        (o.changed = false → o.viewer = v ∧ o.calls = []) ∧
        (k.code ≠ .enter ∨ v.selected = none → o.viewer.status = v.status ∧ o.calls = []) ∧
        (k.code = .enter → ∀ i, v.selected = some i →
          ∃ place region, v.regions[i]? = some (place, region) ∧
            if config.handles region.kind then
              o.calls = [region] ∧ o.viewer.status = handler region v.status
            else o.calls = [] ∧ o.viewer.status = noHandlerStatus region) := by
  intro start
  obtain ⟨v, hv, hafter⟩ := exists_after (sound_ofSource config handler status source) ks
  have hregions : v.regions = start.regions := hafter.same.regions
  refine ⟨v, hv, ⟨hafter.same.document, hregions, hafter.sound.regions⟩, hafter.sound.selected,
    ?_, hafter.sound.scroll, by simpa [ofSource] using hafter.quit, fun k => ?_⟩
  · rw [hafter.selected, hregions]
    simp [start, ofSource, Key.selects]
  obtain ⟨o, ho, hstep⟩ := exists_step hafter.sound k
  refine ⟨o, ho, fun hquit => hstep.quit_iff.mpr (.inl hquit), fun hsel he => ?_,
    hstep.eq_of_unchanged, hstep.status_eq, fun henter i hi => ?_⟩
  · exact hsel (hstep.selected_eq_none_iff.mp he).1
  · obtain ⟨place, region, hget, hcalls, hstatus⟩ := hstep.enter henter hi
    have hconfig : v.config = config := hafter.same.config
    have hhandler : v.handler = handler := hafter.same.handler
    refine ⟨place, region, hget, ?_⟩
    rw [hcalls, hstatus, statusAfter, RenderConfig.dispatch, hconfig, hhandler]
    split
    · exact ⟨rfl, rfl⟩
    · exact ⟨rfl, rfl⟩

end Passage.Viewer
