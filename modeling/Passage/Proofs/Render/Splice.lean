import Mathlib.Data.List.Basic
import Passage.Proofs.Render.Weave

/-! A text with matches replaced, place by place. Weaving goes from match to match; what comes of
it can be said for each place of the text by itself: a character that no match covers stands where
it stood, and the answer to a match stands where the match starts (`weave_eq_splice`). -/

namespace Passage

def Tag.Match.Covers (m : Tag.Match) (i : Nat) : Prop :=
  m.span.start ≤ i ∧ i < m.span.stop

instance (m : Tag.Match) (i : Nat) : Decidable (m.Covers i) :=
  inferInstanceAs (Decidable (_ ∧ _))

theorem Tag.Match.not_covers_of_lt {m : Tag.Match} {i : Nat} (h : i < m.start) : ¬ m.Covers i :=
  fun hc => absurd hc.1 (Nat.not_le.mpr h)

theorem Tag.Match.not_covers_of_le {m : Tag.Match} {i : Nat} (h : m.span.stop ≤ i) :
    ¬ m.Covers i :=
  fun hc => absurd hc.2 (Nat.not_lt.mpr h)

/-- The match that covers a place is the only one. -/
theorem Tag.Following.find?_covers {α : Type} {f : α → Tag.Match} {l : List α} {a : α}
    {offset i : Nat} (hf : Tag.Following offset (l.map f)) (ha : a ∈ l) (hc : (f a).Covers i) :
    l.find? (fun a => (f a).Covers i) = some a := by
  induction l generalizing offset with
  | nil => cases ha
  | cons b l ih =>
    obtain ⟨-, hf⟩ := hf
    rcases List.mem_cons.mp ha with rfl | ha
    · exact List.find?_cons_of_pos (by simpa using hc)
    · have hle : (f b).span.stop ≤ i :=
        Nat.le_trans (hf.le_start (f a) (List.mem_map_of_mem ha)) hc.1
      have hb := Tag.Match.not_covers_of_le hle
      rw [List.find?_cons_of_neg (by simpa using hb), ih hf ha]

/-- What stands at a place: the texts for the matches that start there, and its character unless a
match covers it. -/
def editAt (edits : List (Tag.Match × StyledText)) (p : StyledChar × Nat) : List StyledChar :=
  ((edits.filter fun e => e.1.start = p.2).flatMap fun e => e.2.chars) ++
    bif edits.any fun e => e.1.Covers p.2 then [] else [p.1]

/-- Characters with each match's span replaced by the text for it. -/
def splice (cs : List StyledChar) (edits : List (Tag.Match × StyledText)) : List StyledChar :=
  cs.zipIdx.flatMap (editAt edits)

variable {edits : List (Tag.Match × StyledText)} {m : Tag.Match} {u : StyledText}
  {p : StyledChar × Nat}

/-- A place before all matches. -/
theorem editAt_of_lt (h : ∀ e ∈ edits, p.2 < e.1.start) : editAt edits p = [p.1] := by
  have hstart : edits.filter (fun e => e.1.start = p.2) = [] := by
    refine List.filter_eq_nil_iff.mpr fun e he => ?_
    have := h e he
    simp only [decide_eq_true_eq]
    omega
  have hcover : edits.any (fun e => e.1.Covers p.2) = false := by
    refine List.any_eq_false.mpr fun e he => ?_
    have := h e he
    simp only [decide_eq_true_eq]
    exact fun hc => absurd hc.1 (Nat.not_le_of_lt this)
  rw [editAt, hstart, hcover]
  rfl

/-- A place at which the first match does not start and which it does not cover. -/
theorem editAt_cons_of_ne (hs : m.start ≠ p.2) (hc : ¬ m.Covers p.2) :
    editAt ((m, u) :: edits) p = editAt edits p := by
  simp [editAt, hs, hc]

/-- The place at which an empty first match starts. -/
theorem editAt_cons_of_not_covers (hs : m.start = p.2) (hc : ¬ m.Covers p.2) :
    editAt ((m, u) :: edits) p = u.chars ++ editAt edits p := by
  simp [editAt, hs, hc]

/-- A place that the first match covers, the others starting after it. -/
theorem editAt_cons_of_covers (hc : m.Covers p.2) (h : ∀ e ∈ edits, m.span.stop ≤ e.1.start) :
    editAt ((m, u) :: edits) p = if m.start = p.2 then u.chars else [] := by
  have hstart : edits.filter (fun e => e.1.start = p.2) = [] := by
    refine List.filter_eq_nil_iff.mpr fun e he => ?_
    have := h e he
    have := hc.2
    simp only [decide_eq_true_eq]
    omega
  by_cases hs : m.start = p.2
  · simp [editAt, hs, hc, hstart]
  · simp [editAt, hs, hc, hstart]

/-- The places of a match that is not empty. -/
theorem flatMap_editAt_match {tag : List StyledChar} (hlen : tag.length = m.extent.length)
    (hne : tag ≠ []) (h : ∀ e ∈ edits, m.span.stop ≤ e.1.start) :
    (tag.zipIdx m.start).flatMap (editAt ((m, u) :: edits)) = u.chars := by
  obtain ⟨c, rest, rfl⟩ := List.exists_cons_of_ne_nil hne
  have hstop : m.span.stop = m.start + 1 + rest.length := by
    rw [List.length_cons] at hlen
    simp only [Tag.Match.span]
    omega
  have hc : m.Covers m.start := ⟨Nat.le_refl _, by omega⟩
  have hrest : (rest.zipIdx (m.start + 1)).flatMap (editAt ((m, u) :: edits)) = [] := by
    refine List.flatMap_eq_nil_iff.mpr fun p hp => ?_
    have hlo := List.le_snd_of_mem_zipIdx hp
    have hhi := List.snd_lt_add_of_mem_zipIdx hp
    have hne : m.start ≠ p.2 := by omega
    rw [editAt_cons_of_covers ⟨Nat.le_of_lt hlo, by omega⟩ h, if_neg hne]
  rw [List.zipIdx_cons, List.flatMap_cons, editAt_cons_of_covers hc h, if_pos rfl, hrest,
    List.append_nil]

/-- The places after the first match. -/
theorem flatMap_editAt_later {cs : List StyledChar} {n : Nat} (hlt : m.start < n)
    (hle : m.span.stop ≤ n) :
    (cs.zipIdx n).flatMap (editAt ((m, u) :: edits)) = (cs.zipIdx n).flatMap (editAt edits) := by
  refine List.flatMap_congr fun p hp => ?_
  have hp := List.le_snd_of_mem_zipIdx hp
  exact editAt_cons_of_ne (by omega) fun hc => absurd hc.2 (by omega)

/-- The places from the start of the first match on. -/
theorem flatMap_editAt_cons {cs : List StyledChar} (hlt : m.start < cs.length)
    (hle : m.span.stop ≤ cs.length) (h : ∀ e ∈ edits, m.span.stop ≤ e.1.start) :
    ((cs.drop m.start).zipIdx m.start).flatMap (editAt ((m, u) :: edits)) =
      u.chars ++ ((cs.drop m.span.stop).zipIdx m.span.stop).flatMap (editAt edits) := by
  have hspan : m.span.stop = m.start + m.extent.length := rfl
  by_cases hzero : m.extent.length = 0
  · -- nothing is covered, and the answer stands before the character
    have hc : ¬ m.Covers m.start := fun hc => absurd hc.2 (by omega)
    rw [hspan, hzero, Nat.add_zero, List.drop_eq_getElem_cons hlt, List.zipIdx_cons,
      List.flatMap_cons, List.flatMap_cons, editAt_cons_of_not_covers rfl hc,
      flatMap_editAt_later (by omega) (by omega), List.append_assoc]
  · have hlen : ((cs.drop m.start).take m.extent.length).length = m.extent.length := by
      rw [List.length_take, List.length_drop]
      omega
    have hne : (cs.drop m.start).take m.extent.length ≠ [] :=
      List.ne_nil_of_length_pos (by omega)
    rw [← List.take_append_drop m.extent.length (cs.drop m.start), List.drop_drop, ← hspan,
      List.zipIdx_append, List.flatMap_append, flatMap_editAt_match hlen hne h, hlen, ← hspan,
      flatMap_editAt_later (by omega) (Nat.le_refl _)]

/-- The places before the first match. -/
theorem flatMap_editAt_of_lt {cs : List StyledChar} {n : Nat}
    (h : ∀ e ∈ edits, n + cs.length ≤ e.1.start) : (cs.zipIdx n).flatMap (editAt edits) = cs := by
  have hplace : ∀ p ∈ cs.zipIdx n, editAt edits p = [p.1] := by
    intro p hp
    have hp := List.snd_lt_add_of_mem_zipIdx hp
    exact editAt_of_lt fun e he => Nat.lt_of_lt_of_le hp (h e he)
  rw [List.flatMap_congr hplace, ← List.map_eq_flatMap, List.zipIdx_map_fst]

theorem splice_nil (cs : List StyledChar) : splice cs [] = cs :=
  flatMap_editAt_of_lt fun _ he => absurd he List.not_mem_nil

/-- Weaving from an offset on is splicing the places from there on. -/
theorem weave_eq_flatMap (cs : List StyledChar) {offset : Nat}
    (hf : Tag.Following offset (edits.map Prod.fst))
    (hw : ∀ e ∈ edits, e.1.start < cs.length ∧ e.1.span.stop ≤ cs.length) :
    weave cs offset edits = ((cs.drop offset).zipIdx offset).flatMap (editAt edits) := by
  induction edits generalizing offset with
  | nil => rw [weave, flatMap_editAt_of_lt fun e he => absurd he List.not_mem_nil]
  | cons e edits ih =>
    obtain ⟨m, u⟩ := e
    obtain ⟨hle, hf⟩ := hf
    obtain ⟨hmatch, hw⟩ := List.forall_mem_cons.mp hw
    simp only at hle hmatch
    obtain ⟨hlt, hstop⟩ := hmatch
    have hlater : ∀ e ∈ edits, m.span.stop ≤ e.1.start := fun e he =>
      hf.le_start e.1 (List.mem_map_of_mem he)
    have hlen : ((cs.drop offset).take (m.start - offset)).length = m.start - offset := by
      rw [List.length_take, List.length_drop]
      omega
    have hgap : ∀ e ∈ (m, u) :: edits,
        offset + ((cs.drop offset).take (m.start - offset)).length ≤ e.1.start := by
      have hspan : m.start ≤ m.span.stop := Nat.le_add_right _ _
      refine List.forall_mem_cons.mpr ⟨by simp only; omega, fun e he => ?_⟩
      have := hlater e he
      omega
    rw [weave, ih hf hw, List.append_assoc, ← flatMap_editAt_cons hlt hstop hlater]
    conv_rhs => rw [← List.take_append_drop (m.start - offset) (cs.drop offset),
      List.zipIdx_append, List.flatMap_append, flatMap_editAt_of_lt hgap, hlen, List.drop_drop,
      Nat.add_sub_of_le hle]

/-- **Weaving is splicing.** -/
theorem weave_eq_splice {t : StyledText} {p : Tag.Pattern}
    (h : edits.map Prod.fst = p.matches t.text) :
    weave t.chars 0 edits = splice t.chars edits := by
  have hf := p.following_matches t.text
  rw [← h] at hf
  refine weave_eq_flatMap t.chars hf fun e he => ?_
  have hm : e.1 ∈ p.matches t.text := h ▸ List.mem_map_of_mem he
  rw [← t.length_text]
  exact ⟨(Tag.Pattern.match?_of_mem_matches hm).1, Tag.Pattern.stop_le_of_mem_matches hm⟩

/-! ## Reading a weave off the places -/

section
variable {β : Type} {f : StyledChar → List β} {g : StyledChar × Nat → List β}

theorem flatMap_zipIdx_of_eq {x : List StyledChar} {n : Nat} (h : ∀ p ∈ x.zipIdx n, g p = f p.1) :
    (x.zipIdx n).flatMap g = x.flatMap f := by
  rw [List.flatMap_congr h]
  conv_rhs => rw [← List.zipIdx_map_fst n x, List.flatMap_map]

/-- If each place outside the matches has what its character has, and the places of each match have
together what the text put there has, then the places have together what the weave has. -/
theorem flatMap_weave {cs : List StyledChar} {edits : List (Tag.Match × StyledText)} {offset : Nat}
    (hf : Tag.Following offset (edits.map Prod.fst))
    (hw : ∀ e ∈ edits, e.1.span.stop ≤ cs.length)
    (hkeep : ∀ p : StyledChar × Nat, offset ≤ p.2 → (∀ e ∈ edits, ¬ e.1.Covers p.2) → g p = f p.1)
    (hedit : ∀ e ∈ edits, e.2.chars.flatMap f =
      (((cs.drop e.1.start).take e.1.extent.length).zipIdx e.1.start).flatMap g) :
    (weave cs offset edits).flatMap f = ((cs.drop offset).zipIdx offset).flatMap g := by
  induction edits generalizing offset with
  | nil =>
    refine (flatMap_zipIdx_of_eq fun p hp => ?_).symm
    exact hkeep p (List.le_snd_of_mem_zipIdx hp) fun e he => absurd he List.not_mem_nil
  | cons e edits ih =>
    obtain ⟨m, u⟩ := e
    obtain ⟨hle, hf⟩ := hf
    obtain ⟨hstop, hw⟩ := List.forall_mem_cons.mp hw
    obtain ⟨hu, hedit⟩ := List.forall_mem_cons.mp hedit
    have hlater : ∀ e ∈ edits, m.span.stop ≤ e.1.start := fun e he =>
      hf.le_start e.1 (List.mem_map_of_mem he)
    have hspan : m.span.stop = m.start + m.extent.length := rfl
    change offset ≤ m.start at hle
    change m.span.stop ≤ cs.length at hstop
    have hlen : ((cs.drop offset).take (m.start - offset)).length = m.start - offset := by
      rw [List.length_take, List.length_drop]
      omega
    have htag : ((cs.drop m.start).take m.extent.length).length = m.extent.length := by
      rw [List.length_take, List.length_drop]
      omega
    have hgap : ∀ p ∈ ((cs.drop offset).take (m.start - offset)).zipIdx offset, g p = f p.1 := by
      intro p hp
      have hlt := List.snd_lt_add_of_mem_zipIdx hp
      refine hkeep p (List.le_snd_of_mem_zipIdx hp) (List.forall_mem_cons.mpr ⟨?_, fun e he => ?_⟩)
      · have hm : p.2 < m.start := by omega
        exact Tag.Match.not_covers_of_lt hm
      · have := hlater e he
        exact Tag.Match.not_covers_of_lt (by omega)
    have hrest := ih hf hw (fun p hp hnone => hkeep p
      (Nat.le_trans hle (Nat.le_trans (Nat.le_add_right m.start m.extent.length) hp))
      (List.forall_mem_cons.mpr ⟨Tag.Match.not_covers_of_le hp, hnone⟩)) hedit
    rw [weave, List.flatMap_append, List.flatMap_append, hrest, hu, ← flatMap_zipIdx_of_eq hgap]
    conv_rhs => rw [← List.take_append_drop (m.start - offset) (cs.drop offset), List.drop_drop,
      Nat.add_sub_of_le hle, List.zipIdx_append, List.flatMap_append, hlen, Nat.add_sub_of_le hle,
      ← List.take_append_drop m.extent.length (cs.drop m.start), List.drop_drop, List.zipIdx_append,
      List.flatMap_append, htag]
    rw [List.append_assoc]
    rfl

end

end Passage
