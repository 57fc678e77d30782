import Mathlib.Data.Int.ModEq
import Mathlib.Data.List.Rotate
import Passage.Proofs.Viewer.Keys

/-! How keys walk the tap targets. One key moves the selection by its stride round the circle of the
targets (`turn_some`), whatever it was; so after any keys the selection is told by how many of each
kind there were and by which kind came first (`foldl_turn_none`). -/

namespace Passage.Viewer

open StyledText (pairwise_regions)

variable {v w : Viewer} {k first : Key} {ks : List Key} {o : KeyOutcome} {n i : Nat}
  {selected : Option Nat}

/-- Where a key puts the selection, among `n` targets. -/
def turn (n : Nat) (selected : Option Nat) (k : Key) : Option Nat :=
  match k.code with
  | .tab => some (nextOf n selected)
  | .backTab => some (previousOf n selected)
  | _ => selected

/-- How far a key goes round the targets. -/
def stride (k : Key) : Int :=
  match k.code with
  | .tab => 1
  | .backTab => -1
  | _ => 0

/-! ## Walking a circle -/

theorem turn_of_not_selects (h : k.selects = false) : turn n selected k = selected := by
  simp only [Key.selects, Bool.or_eq_false_iff, decide_eq_false_iff_not] at h
  rw [turn]
  split <;> simp_all

theorem stride_of_not_selects (h : k.selects = false) : stride k = 0 := by
  simp only [Key.selects, Bool.or_eq_false_iff, decide_eq_false_iff_not] at h
  rw [stride]
  split <;> simp_all

theorem sum_stride (ks : List Key) :
    (ks.map stride).sum = (ks.countP (·.code = .tab) : Int) - ks.countP (·.code = .backTab) := by
  induction ks with
  | nil => rfl
  | cons k ks ih =>
    rw [List.map_cons, List.sum_cons, ih, List.countP_cons, List.countP_cons, stride]
    split <;> simp_all <;> omega

/-- From a selected target a key goes its stride. -/
theorem turn_some (hi : i < n) (k : Key) :
    ∃ j < n, turn n (some i) k = some j ∧ (j : Int) ≡ i + stride k [ZMOD n] := by
  rw [turn, stride]
  split
  · refine ⟨(i + 1) % n, Nat.mod_lt _ (by omega), rfl, ?_⟩
    push_cast
    exact Int.mod_modEq _ _
  · cases i with
    | zero =>
      refine ⟨n - 1, by omega, rfl, ?_⟩
      rw [Int.modEq_iff_dvd]
      exact ⟨-1, by omega⟩
    | succ i => exact ⟨i, by omega, rfl, by push_cast; rw [Int.add_neg_cancel_right]⟩
  · exact ⟨i, hi, rfl, by rw [Int.add_zero]⟩

theorem foldl_turn_some (hi : i < n) (ks : List Key) :
    ∃ j < n, ks.foldl (turn n) (some i) = some j ∧
      (j : Int) ≡ i + (ks.map stride).sum [ZMOD n] := by
  induction ks generalizing i with
  | nil => exact ⟨i, hi, rfl, by simp⟩
  | cons k ks ih =>
    obtain ⟨m, hm, hturn, hstride⟩ := turn_some hi k
    obtain ⟨j, hj, hfold, hsum⟩ := ih hm
    refine ⟨j, hj, by rw [List.foldl_cons, hturn, hfold], hsum.trans ?_⟩
    rw [List.map_cons, List.sum_cons, ← Int.add_assoc]
    exact hstride.add_right _

/-- Without a selection the first Tab goes to the first target, a stride less than it would go from
there, and the first BackTab to the last one. -/
theorem foldl_turn_none (hn : 0 < n) (h : ks.find? Key.selects = some first) :
    ∃ j < n, ks.foldl (turn n) none = some j ∧
      (j : Int) ≡ (ks.map stride).sum - (if first.code = .tab then 1 else 0) [ZMOD n] := by
  induction ks with
  | nil => cases h
  | cons k ks ih =>
    rw [List.map_cons, List.sum_cons, List.foldl_cons]
    cases hk : k.selects with
    | false =>
      rw [List.find?_cons_of_neg (by simp [hk])] at h
      rw [turn_of_not_selects hk, stride_of_not_selects hk, Int.zero_add]
      exact ih h
    | true =>
      rw [List.find?_cons_of_pos hk, Option.some_inj] at h
      subst h
      have start {i : Nat} (hi : i < n) (hturn : turn n none k = some i)
          (hstride : (i : Int) ≡ stride k - (if k.code = .tab then 1 else 0) [ZMOD n]) :
          ∃ j < n, ks.foldl (turn n) (turn n none k) = some j ∧
            (j : Int) ≡ stride k + (ks.map stride).sum - (if k.code = .tab then 1 else 0)
              [ZMOD n] := by
        obtain ⟨j, hj, hfold, hsum⟩ := foldl_turn_some hi ks
        refine ⟨j, hj, by rw [hturn, hfold], hsum.trans ?_⟩
        rw [add_sub_right_comm]
        exact hstride.add_right _
      rcases Key.selects_iff.mp hk with htab | hback
      · exact start hn (by simp [turn, htab, nextOf]) (by simp [stride, htab])
      · refine start (Nat.sub_lt hn Nat.one_pos) (by simp [turn, hback, previousOf]) ?_
        rw [Int.modEq_iff_dvd]
        exact ⟨-1, by simp [stride, hback]; omega⟩

/-- The circle from a place on. -/
theorem map_mod_range' (n i : Nat) :
    (List.range' i n).map (fun j => some (j % n)) = ((List.range n).rotate i).map some := by
  refine List.ext_getElem (by simp) fun m hm _ => ?_
  simp [List.getElem_rotate, Nat.add_comm]

theorem scanl_turn_tabs (hks : ∀ k ∈ ks, k.code = .tab) (i : Nat) :
    ks.scanl (turn n) (some (i % n)) =
      (List.range' i (ks.length + 1)).map fun j => some (j % n) := by
  induction ks generalizing i with
  | nil => simp
  | cons k ks ih =>
    obtain ⟨hk, hks⟩ := List.forall_mem_cons.mp hks
    have hturn : turn n (some (i % n)) k = some ((i + 1) % n) := by simp [turn, hk, nextOf]
    rw [List.scanl_cons, hturn, ih hks]
    rfl

/-- As many Tabs as there are targets go round once, from the target after the selected one on. -/
theorem scanl_turn_round (hn : 0 < n) (hselected : ∀ i, selected = some i → i < n)
    (hks : ∀ k ∈ ks, k.code = .tab) (hlen : ks.length = n) :
    (ks.scanl (turn n) selected).tail =
      ((List.range n).rotate (selected.elim 0 (· + 1))).map some := by
  rw [← map_mod_range']
  cases selected with
  | some i =>
    have hscan := scanl_turn_tabs (n := n) hks i
    rw [Nat.mod_eq_of_lt (hselected i rfl)] at hscan
    rw [hscan, hlen, List.range'_succ, List.map_cons, List.tail_cons]
    rfl
  | none =>
    obtain ⟨k, rest, rfl⟩ := List.exists_cons_of_length_pos (hlen ▸ hn)
    obtain ⟨hk, hrest⟩ := List.forall_mem_cons.mp hks
    have hturn : turn n none k = some (0 % n) := by simp [turn, hk, nextOf]
    rw [List.scanl_cons, List.tail_cons, hturn, scanl_turn_tabs hrest, ← List.length_cons, hlen]
    rfl

/-! ## The selection of a viewer -/

theorem quits_of_selects (h : k.selects = true) : k.quits = false := by
  rcases Key.selects_iff.mp h with hcode | hcode <;> simp [Key.quits, hcode]

theorem exists_move?_eq (h : Sound v) (target : Nat → Option Nat → Nat)
    (hi : target v.regions.length v.selected = i) (hlt : i < v.regions.length) :
    ∃ place region line, v.regions[i]? = some (place, region) ∧
      v.lineOf? place.start = some line ∧ v.move? target =
        some ⟨{ v with selected := some i, scroll := min maxScroll (line - 2) }, true, []⟩ := by
  obtain ⟨place, region, line, hget, hline, hselect⟩ := exists_select? h hlt
  have hne : v.regions.isEmpty = false := by
    rw [List.isEmpty_eq_false_iff]
    exact List.length_pos_iff.mp (Nat.zero_lt_of_lt hlt)
  refine ⟨place, region, line, hget, hline, ?_⟩
  simp [move?, hne, hi, hselect]

/-- A key that moves the selection selects a target and scrolls to its line. -/
theorem exists_press?_of_selects (h : Sound v) (hk : k.selects = true) (hne : v.regions ≠ []) :
    ∃ i place region line, turn v.regions.length v.selected k = some i ∧
      v.regions[i]? = some (place, region) ∧ v.lineOf? place.start = some line ∧ v.press? k =
        some ⟨{ v with selected := some i, scroll := min maxScroll (line - 2) }, true, []⟩ := by
  have hn : 0 < v.regions.length := List.length_pos_iff.mpr hne
  have hquits := quits_of_selects hk
  rcases Key.selects_iff.mp hk with hcode | hcode
  · obtain ⟨place, region, line, hget, hline, hmove⟩ :=
      exists_move?_eq h nextOf rfl (nextOf_lt hn v.selected)
    exact ⟨_, place, region, line, by rw [turn, hcode], hget, hline,
      by simp [press?, hquits, hcode, hmove]⟩
  · obtain ⟨place, region, line, hget, hline, hmove⟩ :=
      exists_move?_eq h previousOf rfl (previousOf_lt hn h.selected)
    exact ⟨_, place, region, line, by rw [turn, hcode], hget, hline,
      by simp [press?, hquits, hcode, hmove]⟩

theorem Step.selected_eq (hstep : Step v k o) (h : k.selects = false) :
    o.viewer.selected = v.selected := by
  cases hstep with
  | select _ hselects => simp [hselects] at h
  | quit | activate | scroll | idle => rfl

theorem selected_press? (h : Sound v) (hne : v.regions ≠ []) (hstep : Step v k o)
    (ho : v.press? k = some o) :
    o.viewer.selected = turn v.regions.length v.selected k := by
  cases hk : k.selects with
  | false => rw [hstep.selected_eq hk, turn_of_not_selects hk]
  | true =>
    obtain ⟨i, place, region, line, hturn, -, -, hpress⟩ := exists_press?_of_selects h hk hne
    rw [hpress, Option.some_inj] at ho
    rw [← ho, hturn]

/-- Keys move the selection one after the other. -/
theorem exists_pressAll? (h : Sound v) (hne : v.regions ≠ []) (ks : List Key) :
    ∃ w, v.pressAll? ks = some w ∧ Sound w ∧ Same v w ∧
      w.selected = ks.foldl (turn v.regions.length) v.selected := by
  obtain ⟨w, hw, hafter⟩ := exists_after h ks
  refine ⟨w, hw, hafter.sound, hafter.same, ?_⟩
  clear hafter
  induction ks generalizing v with
  | nil => rw [← Option.some.inj hw, List.foldl_nil]
  | cons k ks ih =>
    obtain ⟨o, ho, hstep⟩ := exists_step h k
    rw [pressAll?, List.foldlM_cons, ho] at hw
    have hregions : o.viewer.regions = v.regions := hstep.same.regions
    rw [List.foldl_cons, ← selected_press? h hne hstep ho, ← hregions]
    exact ih (hstep.sound h) (hregions ▸ hne) hw

/-- The selections after each of a list of keys. -/
theorem exists_steps? (h : Sound v) (hne : v.regions ≠ []) (ks : List Key) :
    ∃ outcomes, v.steps? ks = some outcomes ∧ outcomes.map (·.viewer.selected) =
      (ks.scanl (turn v.regions.length) v.selected).tail := by
  induction ks generalizing v with
  | nil => exact ⟨[], rfl, rfl⟩
  | cons k ks ih =>
    obtain ⟨o, ho, hstep⟩ := exists_step h k
    have hregions : o.viewer.regions = v.regions := hstep.same.regions
    obtain ⟨outcomes, houtcomes, hselected⟩ := ih (hstep.sound h) (hregions ▸ hne)
    refine ⟨o :: outcomes, by simp [steps?, ho, houtcomes], ?_⟩
    rw [List.map_cons, hselected, hregions, List.scanl_cons, List.tail_cons,
      selected_press? h hne hstep ho]
    cases ks <;> simp [List.scanl_cons]

/-! ## Walking the targets -/

/-- Two keys with opposite strides leave a selection where it is. -/
theorem foldl_turn_opposite (hi : i < n) {k l : Key} (h : stride k + stride l = 0) :
    [k, l].foldl (turn n) (some i) = some i := by
  obtain ⟨j, hj, hfold, hsum⟩ := foldl_turn_some hi [k, l]
  have hzero : ([k, l].map stride).sum = 0 := by simpa using h
  rw [hzero, Int.add_zero, Int.natCast_modEq_iff] at hsum
  rw [hfold, hsum.eq_of_lt_of_lt hj hi]

/-- **Tab and BackTab walk the targets in a circle.** The `n` targets of a document stand in its
order. After any keys of which some move the selection, the selected target is the number of Tabs
less that of BackTabs, and one less if a Tab was the first of them, counted round the circle. From
there a Tab and a BackTab, in either order, lead back; and `n` Tabs select each target once, in
order, from the one after the selected one on, or from the first one without a selection. -/
theorem keys_walk (config : RenderConfig) (handler : Region → String → String) (status : String)
    (source : List Char) (ks : List Key) :
    let start := ofSource config handler status source
    let n := start.regions.length
    let tabs := ks.countP (·.code = .tab)
    let backs := ks.countP (·.code = .backTab)
    0 < n →
    ∃ v, start.pressAll? ks = some v ∧
      v.regions = start.regions ∧ v.regions.Pairwise (fun p q => p.1.stop ≤ q.1.start) ∧
      (∀ first, ks.find? Key.selects = some first → ∃ i < n, v.selected = some i ∧
        (i : Int) = ((tabs : Int) - backs - if first.code = .tab then 1 else 0) % n) ∧
      (∀ i tab back, v.selected = some i → tab.code = .tab → back.code = .backTab →
        ∃ w u, v.pressAll? [tab, back] = some w ∧ w.selected = some i ∧
          v.pressAll? [back, tab] = some u ∧ u.selected = some i) ∧
      ∀ round : List Key, round.length = n → (∀ k ∈ round, k.code = .tab) →
        ∃ outcomes, v.steps? round = some outcomes ∧ outcomes.map (·.viewer.selected) =
          ((List.range n).rotate (v.selected.elim 0 (· + 1))).map some := by
  intro start n tabs backs hn
  have hne : start.regions ≠ [] := List.length_pos_iff.mp hn
  obtain ⟨v, hv, hsound, hsame, hselected⟩ :=
    exists_pressAll? (sound_ofSource config handler status source) hne ks
  have hregions : v.regions = start.regions := hsame.regions
  have hlen : v.regions.length = n := by rw [hregions]
  have hvne : v.regions ≠ [] := hregions ▸ hne
  refine ⟨v, hv, hregions, ?_, fun first hfirst => ?_, fun i tab back hi htab hback => ?_,
    fun round hround htabs => ?_⟩
  · rw [hsound.regions]
    exact pairwise_regions v.document
  · obtain ⟨i, hi, hfold, hsum⟩ := foldl_turn_none hn hfirst
    refine ⟨i, hi, hselected.trans hfold, ?_⟩
    rw [sum_stride] at hsum
    rw [← hsum, Int.emod_eq_of_lt (Int.natCast_nonneg i) (Int.ofNat_lt.mpr hi)]
  · have hlt := hsound.selected i hi
    obtain ⟨w, hw, -, -, hwi⟩ := exists_pressAll? hsound hvne [tab, back]
    obtain ⟨u, hu, -, -, hui⟩ := exists_pressAll? hsound hvne [back, tab]
    refine ⟨w, u, hw, ?_, hu, ?_⟩
    · rw [hwi, hi, foldl_turn_opposite hlt (by simp [stride, htab, hback])]
    · rw [hui, hi, foldl_turn_opposite hlt (by simp [stride, htab, hback])]
  · obtain ⟨outcomes, houtcomes, hscan⟩ := exists_steps? hsound hvne round
    refine ⟨outcomes, houtcomes, ?_⟩
    rw [hscan, hlen]
    exact scanl_turn_round hn (fun i hi => hlen ▸ hsound.selected i hi) htabs hround

/-- Two targets, of which a BackTab selects the last one first. -/
theorem keys_walk_backTab_first :
    let source := "<verse number=\"1\" style=\"v\" />a <verse number=\"2\" style=\"v\" />b".toList
    let start := ofSource { verseHandler := true } (fun _ status => status) "" source
    0 < start.regions.length ∧
      ∃ v, start.pressAll? [⟨.backTab, []⟩, ⟨.down, []⟩, ⟨.tab, [.control]⟩, ⟨.tab, []⟩] = some v ∧
        v.selected = some 1 := by
  intro source start
  have hlen : start.regions.length = 2 := by decide +kernel
  have hn : 0 < start.regions.length := hlen ▸ Nat.two_pos
  obtain ⟨v, hv, -, -, hselected, -⟩ := keys_walk { verseHandler := true } (fun _ status => status) ""
    source [⟨.backTab, []⟩, ⟨.down, []⟩, ⟨.tab, [.control]⟩, ⟨.tab, []⟩] hn
  obtain ⟨i, -, hi, hmod⟩ := hselected ⟨.backTab, []⟩ rfl
  have hone : (i : Int) = 1 := hmod.trans (by rw [hlen]; decide)
  exact ⟨hn, v, hv, by rw [hi]; exact congrArg some (Int.ofNat_inj.mp hone)⟩

end Passage.Viewer
