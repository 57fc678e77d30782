import Passage.Proofs.Styled.Placed
import Passage.Proofs.Styled.Ranged
import Passage.Proofs.Text.Items

/-! Slices. The search for the marks that meet a span passes over marks that contribute nothing, and
what is read at a mark is what the run itself gives; so the held form of a slice is the slice of the
held form (`ranged_slice?`). -/

namespace Passage

namespace Text

theorem dropBytes?_add (cs ds : List Char) (n : Nat) :
    dropBytes? (byteLength cs + n) (cs ++ ds) = dropBytes? n ds := by
  induction cs with
  | nil => rw [List.nil_append, show byteLength [] = 0 from rfl, Nat.zero_add]
  | cons c cs ih =>
    have hc := Char.utf8Size_pos c
    rw [List.cons_append, byteLength_cons, dropBytes?, if_neg (by omega), if_pos (by omega),
      show c.utf8Size + byteLength cs + n - c.utf8Size = byteLength cs + n by omega, ih]

theorem dropBytes?_append_of_le {n : Nat} {cs : List Char} (h : n ≤ byteLength cs)
    (ds : List Char) : dropBytes? n (cs ++ ds) = (dropBytes? n cs).map (· ++ ds) := by
  induction cs generalizing n with
  | nil =>
    obtain rfl : n = 0 := Nat.le_zero.mp h
    cases ds <;> rfl
  | cons c cs ih =>
    rw [byteLength_cons] at h
    rw [List.cons_append, dropBytes?, dropBytes?]
    split
    · rfl
    · split
      · exact ih (by omega)
      · rfl

theorem takeBytes?_append_of_le {n : Nat} {cs : List Char} (h : n ≤ byteLength cs)
    (ds : List Char) : takeBytes? n (cs ++ ds) = takeBytes? n cs := by
  induction cs generalizing n with
  | nil =>
    obtain rfl : n = 0 := Nat.le_zero.mp h
    cases ds <;> rfl
  | cons c cs ih =>
    rw [byteLength_cons] at h
    rw [List.cons_append, takeBytes?, takeBytes?]
    split
    · rfl
    · split
      · rw [ih (by omega)]
      · rfl

theorem byteLength_of_dropBytes? {n : Nat} {cs rest : List Char}
    (h : dropBytes? n cs = some rest) : n + byteLength rest = byteLength cs := by
  induction cs generalizing n with
  | nil =>
    rw [dropBytes?] at h
    split at h <;> cases h
    omega
  | cons c cs ih =>
    rw [dropBytes?] at h
    split at h
    · cases h
      omega
    · split at h
      · have := ih h
        rw [byteLength_cons]
        omega
      · cases h

theorem exists_front_of_dropBytes? {n : Nat} {cs rest : List Char}
    (h : dropBytes? n cs = some rest) : ∃ front, cs = front ++ rest ∧ byteLength front = n := by
  induction cs generalizing n with
  | nil =>
    rw [dropBytes?] at h
    split at h <;> cases h
    rename_i hn
    exact ⟨[], rfl, hn.symm⟩
  | cons c cs ih =>
    rw [dropBytes?] at h
    split at h
    · rename_i hn
      cases h
      exact ⟨[], rfl, hn.symm⟩
    · split at h
      · obtain ⟨front, rfl, hlen⟩ := ih h
        refine ⟨c :: front, rfl, ?_⟩
        rw [byteLength_cons]
        omega
      · cases h

theorem exists_back_of_takeBytes? {n : Nat} {cs front : List Char}
    (h : takeBytes? n cs = some front) : ∃ back, cs = front ++ back ∧ byteLength front = n := by
  induction cs generalizing n front with
  | nil =>
    rw [takeBytes?] at h
    split at h <;> cases h
    rename_i hn
    exact ⟨[], rfl, hn.symm⟩
  | cons c cs ih =>
    rw [takeBytes?] at h
    split at h
    · rename_i hn
      cases h
      exact ⟨c :: cs, rfl, hn.symm⟩
    · split at h
      · obtain ⟨rest, hrest, rfl⟩ := Option.map_eq_some_iff.mp h
        obtain ⟨back, rfl, hlen⟩ := ih hrest
        refine ⟨back, rfl, ?_⟩
        rw [byteLength_cons]
        omega
      · cases h

/-- A text is its first bytes and what follows them. -/
theorem eq_append_of_takeBytes? {n : Nat} {cs front back : List Char}
    (hfront : takeBytes? n cs = some front) (hback : dropBytes? n cs = some back) :
    cs = front ++ back := by
  obtain ⟨first, rfl, rfl⟩ := exists_front_of_dropBytes? hback
  rw [takeBytes?_byteLength_append] at hfront
  rw [Option.some.inj hfront]

/-- A span inside a part of a text is read in that part. -/
theorem sliceBytes?_of_within (front mid back : List Char) {k stop : Nat}
    (hle : byteLength front + k ≤ stop) (hhi : stop ≤ byteLength front + byteLength mid) :
    sliceBytes? ⟨byteLength front + k, stop⟩ (front ++ (mid ++ back)) =
      sliceBytes? ⟨k, stop - byteLength front⟩ mid := by
  have hlen : stop - byteLength front - k = stop - (byteLength front + k) := by omega
  have hk : k ≤ byteLength mid := by omega
  simp only [sliceBytes?, hlen, dropBytes?_add, dropBytes?_append_of_le hk]
  cases h : dropBytes? k mid with
  | none => rfl
  | some rest =>
    have := byteLength_of_dropBytes? h
    have hrest : stop - (byteLength front + k) ≤ byteLength rest := by omega
    exact takeBytes?_append_of_le hrest back

end Text

/-! ## The search for marks -/

section
variable {α β : Type} {f : α → Option (List β)} {q : α → Bool}

theorem mapM_eq_nil {l : List α} (h : ∀ a ∈ l, f a = some []) :
    (l.mapM f).map List.flatten = some [] := by
  induction l with
  | nil => rfl
  | cons a l ih =>
    obtain ⟨ha, hl⟩ := List.forall_mem_cons.mp h
    obtain ⟨out, hout, hnil⟩ := Option.map_eq_some_iff.mp (ih hl)
    simp [ha, hout, hnil]

theorem mapM_dropWhile {l : List α} (h : ∀ a, q a = true → f a = some []) :
    ((l.dropWhile q).mapM f).map List.flatten = (l.mapM f).map List.flatten := by
  induction l with
  | nil => rfl
  | cons a l ih =>
    by_cases ha : q a = true
    · rw [List.dropWhile_cons_of_pos ha, ih, List.mapM_cons, h a ha]
      cases l.mapM f <;> rfl
    · rw [List.dropWhile_cons_of_neg ha]

theorem mapM_takeWhile {l : List α} (h : ∀ a, q a = false → f a = some [])
    (hl : l.Pairwise fun a b => q a = false → q b = false) :
    ((l.takeWhile q).mapM f).map List.flatten = (l.mapM f).map List.flatten := by
  induction l with
  | nil => rfl
  | cons a l ih =>
    obtain ⟨ha, hl⟩ := List.pairwise_cons.mp hl
    cases hq : q a with
    | false =>
      have hall : ∀ b ∈ a :: l, f b = some [] :=
        List.forall_mem_cons.mpr ⟨h a hq, fun b hb => h b (ha b hb hq)⟩
      rw [List.takeWhile_cons_of_neg (by simp [hq]), mapM_eq_nil hall]
      rfl
    | true =>
      rw [List.takeWhile_cons_of_pos hq, List.mapM_cons, List.mapM_cons]
      cases f a with
      | none => rfl
      | some bs =>
        have := ih hl
        cases hx : (l.takeWhile q).mapM f <;> cases hy : l.mapM f <;> simp_all

end

namespace Run

theorem pairwise_placedFrom (offset : Nat) (rs : List Run) :
    (placedFrom offset rs).Pairwise fun p q => p.1.stop ≤ q.1.start := by
  induction rs generalizing offset with
  | nil => exact .nil
  | cons r rs ih => exact .cons (fun p hp => (place_of_mem_placedFrom hp).1) (ih _)

/-- A run starts after the characters of the runs before it. -/
theorem text_of_placedFrom_eq {offset : Nat} {rs : List Run} {front back : List (Span × Run)}
    {p : Span × Run} (h : placedFrom offset rs = front ++ p :: back) :
    p.1.start = offset + Text.byteLength (front.flatMap fun p => p.2.text) ∧
      rs.flatMap Run.text = (front.flatMap fun p => p.2.text) ++
        (p.2.text ++ back.flatMap fun p => p.2.text) := by
  constructor
  · induction front generalizing offset rs with
    | nil =>
      cases rs with
      | nil => cases h
      | cons r rs =>
        rw [← List.head_eq_of_cons_eq h]
        rfl
    | cons q front ih =>
      cases rs with
      | nil => cases h
      | cons r rs =>
        obtain ⟨rfl, hrest⟩ := List.cons_eq_cons.mp h
        rw [ih hrest, List.flatMap_cons, Text.byteLength_append, Nat.add_assoc]
  · rw [← map_snd_placedFrom offset rs, h, List.flatMap_map, List.flatMap_append, List.flatMap_cons]

/-- A placed run is read back from the text at its place. -/
theorem exists_text_of_mem_placedFrom {offset : Nat} {rs : List Run} {p : Span × Run}
    (h : p ∈ placedFrom offset rs) :
    ∃ front back, rs.flatMap Run.text = front ++ (p.2.text ++ back) ∧
      p.1.start = offset + Text.byteLength front := by
  obtain ⟨front, back, hplaces⟩ := List.append_of_mem h
  obtain ⟨hstart, htext⟩ := text_of_placedFrom_eq hplaces
  exact ⟨_, _, htext, hstart⟩

end Run

namespace StyledText

/-- The bytes of a run, and those before it, are characters of the text. -/
theorem exists_text_of_mem_placed {t : StyledText} {p : Span × Run} (h : p ∈ t.placed) :
    ∃ front back, t.text = front ++ (p.2.text ++ back) ∧
      Text.takeBytes? p.1.start t.text = some front ∧
      Text.sliceBytes? p.1 t.text = some p.2.text := by
  obtain ⟨front, back, htext, hstart⟩ := Run.exists_text_of_mem_placedFrom h
  have htext : t.text = front ++ (p.2.text ++ back) := htext
  rw [Nat.zero_add] at hstart
  have hplace : p.1 = ⟨Text.byteLength front, Text.byteLength front + Text.byteLength p.2.text⟩ := by
    rw [← hstart, ← (Run.place_of_mem_placedFrom h).2]
  refine ⟨front, back, htext, ?_, ?_⟩
  · rw [hstart, htext, Text.takeBytes?_byteLength_append]
  · rw [hplace, htext, Text.sliceBytes?_append]

/-- A tap target covers a run. -/
theorem exists_mem_placed_of_mem_regions {t : StyledText} {place : Span} {region : Region}
    (h : (place, region) ∈ t.regions) : ∃ p ∈ t.placed, p.1 = place := by
  obtain ⟨p, hp, hplace⟩ := List.mem_filterMap.mp h
  obtain ⟨r, -, hr⟩ := Option.map_eq_some_iff.mp hplace
  exact ⟨p, hp, (Prod.mk.inj hr).1⟩

/-- Targets stand in the order of the document. -/
theorem pairwise_regions (t : StyledText) :
    t.regions.Pairwise fun p q => p.1.stop ≤ q.1.start := by
  rw [regions, List.pairwise_filterMap]
  refine (Run.pairwise_placedFrom 0 t.runs).imp fun {p q} hpq a ha b hb => ?_
  obtain ⟨_, -, rfl⟩ := Option.map_eq_some_iff.mp ha
  obtain ⟨_, -, rfl⟩ := Option.map_eq_some_iff.mp hb
  exact hpq

end StyledText

namespace RangedText

theorem runIn?_ranged {t : StyledText} {p : Span × Run} (h : p ∈ t.placed) (s : Span) :
    t.ranged.runIn? s ⟨p.1, p.2.styles⟩ = Run.sliceBytes? s p.1 p.2 := by
  obtain ⟨front, back, htext, hstart⟩ := Run.exists_text_of_mem_placedFrom h
  have hstop := (Run.place_of_mem_placedFrom h).2
  rw [Nat.zero_add] at hstart
  simp only [runIn?, Run.sliceBytes?, Nat.max_comm s.start, Nat.min_comm s.stop]
  split
  · rename_i hlt
    have hstart' : max p.1.start s.start =
        Text.byteLength front + (max p.1.start s.start - p.1.start) := by omega
    have hle : Text.byteLength front + (max p.1.start s.start - p.1.start) ≤
        min p.1.stop s.stop := by omega
    have hread := Text.sliceBytes?_of_within front p.2.text back hle (by omega)
    have hlen : min p.1.stop s.stop - p.1.start - (max p.1.start s.start - p.1.start) =
        min p.1.stop s.stop - max p.1.start s.start := by omega
    rw [← hstart', ← htext, ← hstart] at hread
    rw [StyledText.ranged, StyledText.text, hread]
    simp only [Text.sliceBytes?, hlen]
    cases Text.dropBytes? (max p.1.start s.start - p.1.start) p.2.text with
    | none => rfl
    | some rest =>
      cases ht : Text.takeBytes? (min p.1.stop s.stop - max p.1.start s.start) rest with
      | none => simp [ht]
      | some cs => simp [ht]
  · rfl

theorem ranged_slice? (t : StyledText) (s : Span) :
    t.ranged.slice? s = (t.slice? s).map StyledText.ranged := by
  have hskip (m : Mark) (h : ¬ max m.range.start s.start < min m.range.stop s.stop) :
      t.ranged.runIn? s m = some [] := if_neg h
  have hsorted : t.ranged.marks.Pairwise fun m n =>
      decide (m.range.start < s.stop) = false → decide (n.range.start < s.stop) = false := by
    rw [StyledText.ranged, Run.marksFrom, List.pairwise_map]
    refine (Run.pairwise_placedFrom 0 t.runs).imp_of_mem fun {p q} hp _ hpq hs => ?_
    have := (Run.place_of_mem_placedFrom hp).2
    simp only [decide_eq_false_iff_not] at hs ⊢
    omega
  have hsearch : ((t.ranged.marksIn s).mapM (t.ranged.runIn? s)).map List.flatten =
      (t.ranged.marks.mapM (t.ranged.runIn? s)).map List.flatten := by
    rw [marksIn, mapM_takeWhile, mapM_dropWhile]
    · intro m hm
      refine hskip m ?_
      rw [decide_eq_true_eq] at hm
      omega
    · intro m hm
      refine hskip m ?_
      rw [decide_eq_false_iff_not] at hm
      omega
    · exact hsorted.sublist (List.dropWhile_sublist _)
  have hread : t.ranged.marks.mapM (t.ranged.runIn? s) =
      t.placed.mapM fun p => Run.sliceBytes? s p.1 p.2 := by
    have hall : ∀ p ∈ t.placed, t.ranged.runIn? s ⟨p.1, p.2.styles⟩ =
        Run.sliceBytes? s p.1 p.2 := fun p hp => runIn?_ranged hp s
    change (t.placed.map _).mapM _ = _
    rw [List.mapM_map]
    exact mapM_congr hall
  rw [hread] at hsearch
  have := congrArg (Option.map fun rs => (StyledText.ofRuns rs).ranged) hsearch
  simp only [Option.map_map, Function.comp_def] at this
  simpa only [slice?, StyledText.slice?, Option.map_map, Function.comp_def, pushAll_empty] using this

end RangedText

end Passage
