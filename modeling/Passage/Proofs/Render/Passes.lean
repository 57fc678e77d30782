import Passage.Proofs.Render.Weave

/-! A pass told along its scan. At each place the pattern reads the whole rest of the text: where it
finds nothing the character is kept, and what it finds is replaced by the rule's answer, after which
the scan goes on. What is put together in this way is what the pass makes of the text
(`Passes.rewritten_eq`). -/

namespace Passage

variable {σ : Type}

/-- From an offset and a state of its rule on, a pass makes one list of characters of another, and
leaves the rule in a state. -/
inductive Passes (p : Tag.Pattern) (rule : σ → Occurrence → StyledText × σ) :
    Nat → σ → List StyledChar → List StyledChar → σ → Prop
  | nil {offset : Nat} {s : σ} : Passes p rule offset s [] [] s
  | keep {offset : Nat} {s s' : σ} {c : StyledChar} {cs out : List StyledChar} :
      p.match? (offset == 0) ((c :: cs).map Prod.fst) = none →
        Passes p rule (offset + 1) s cs out s' → Passes p rule offset s (c :: cs) (c :: out) s'
  | tag {offset : Nat} {s s' : σ} {x cs out : List StyledChar} {e : Tag.Extent} :
      x ≠ [] → e.length = x.length → p.match? (offset == 0) ((x ++ cs).map Prod.fst) = some e →
        Passes p rule (offset + x.length) (rule s ⟨⟨offset, e⟩, .ofChars x⟩).2 cs out s' →
        Passes p rule offset s (x ++ cs)
          ((rule s ⟨⟨offset, e⟩, .ofChars x⟩).1.chars ++ out) s'

namespace Passes

variable {p : Tag.Pattern} {rule : σ → Occurrence → StyledText × σ} {offset : Nat} {s s' : σ}
  {cs out : List StyledChar}

/-- A stretch in which nothing is found, whatever the text after it. -/
theorem keep_append {x : List StyledChar}
    (hx : ∀ y z, x = y ++ z → z ≠ [] →
      p.match? (offset + y.length == 0) ((z ++ cs).map Prod.fst) = none)
    (h : Passes p rule (offset + x.length) s cs out s') :
    Passes p rule offset s (x ++ cs) (x ++ out) s' := by
  induction x generalizing offset with
  | nil => exact h
  | cons c x ih =>
    refine .keep (hx [] (c :: x) rfl (List.cons_ne_nil c x)) (ih (fun y z hyz hz => ?_) ?_)
    · have := hx (c :: y) z (by rw [hyz]; rfl) hz
      rwa [List.length_cons, ← Nat.add_assoc, Nat.add_right_comm] at this
    · rwa [List.length_cons, ← Nat.add_assoc, Nat.add_right_comm] at h

/-- What holds of all characters of a text holds of what a pass makes of it, if the answer to a tag
keeps it. -/
theorem forall_mem {P : StyledChar → Prop} (h : Passes p rule offset s cs out s')
    (hcs : ∀ c ∈ cs, P c)
    (hrule : ∀ s o, (∀ c ∈ o.tag.chars, P c) → ∀ c ∈ (rule s o).1.chars, P c) :
    ∀ c ∈ out, P c := by
  induction h with
  | nil => exact hcs
  | keep _ _ ih =>
    obtain ⟨hc, hcs⟩ := List.forall_mem_cons.mp hcs
    exact List.forall_mem_cons.mpr ⟨hc, ih hcs⟩
  | @tag offset s s' x cs out e _ _ _ _ ih =>
    obtain ⟨hx, hcs⟩ := List.forall_mem_append.mp hcs
    have htag : ∀ c ∈ (StyledText.ofChars x).chars, P c := by rwa [StyledText.chars_ofChars]
    exact List.forall_mem_append.mpr ⟨hrule s _ htag, ih hcs⟩

/-- The part between the end of a match and the next place reached grows by what is read. -/
private theorem take_drop_append {cs x rest : List StyledChar} {k offset : Nat} (hk : k ≤ offset)
    (hd : cs.drop offset = x ++ rest) :
    (cs.drop k).take (offset + x.length - k) = (cs.drop k).take (offset - k) ++ x := by
  rw [show offset + x.length - k = offset - k + x.length by omega, List.take_add, List.drop_drop,
    show k + (offset - k) = offset by omega, hd, List.take_left]

private theorem drop_add_length {cs x rest : List StyledChar} {offset : Nat}
    (hd : cs.drop offset = x ++ rest) : cs.drop (offset + x.length) = rest := by
  rw [← List.drop_drop, hd, List.drop_left]

/-- From any place the scan finds the tags of the judgement, and the pass puts its answers between
what it has read. -/
theorem weave_answers {t : StyledText} (h : Passes p rule offset s cs out s')
    (hd : t.chars.drop offset = cs) {k : Nat} (hk : k ≤ offset) :
    weave t.chars k (answers t rule s (p.matchesFrom offset 0 (cs.map Prod.fst))).1 =
        (t.chars.drop k).take (offset - k) ++ out ∧
      (answers t rule s (p.matchesFrom offset 0 (cs.map Prod.fst))).2 = s' := by
  induction h generalizing k with
  | @nil offset s =>
    have hlen : (t.chars.drop k).length ≤ offset - k := by
      have := List.drop_eq_nil_iff.mp hd
      rw [List.length_drop]
      omega
    rw [List.take_of_length_le hlen, List.append_nil]
    exact ⟨rfl, rfl⟩
  | @keep offset s s' c cs out hm _ ih =>
    have hd : t.chars.drop offset = [c] ++ cs := hd
    obtain ⟨hw, hs⟩ := ih (drop_add_length hd) (k := k) (by omega)
    rw [List.map_cons] at hm ⊢
    simp only [Tag.Pattern.matchesFrom, hm]
    have hgap := take_drop_append hk hd
    rw [List.length_singleton] at hgap
    rw [hgap, List.append_assoc] at hw
    exact ⟨hw, hs⟩
  | @tag offset s s' x cs out e hne hlen hm _ ih =>
    obtain ⟨hw, hs⟩ := ih (drop_add_length hd) (k := offset + x.length) (Nat.le_refl _)
    have hscan : p.matchesFrom offset 0 ((x ++ cs).map Prod.fst) =
        ⟨offset, e⟩ :: p.matchesFrom (offset + x.length) 0 (cs.map Prod.fst) := by
      obtain ⟨c, x, rfl⟩ := List.exists_cons_of_ne_nil hne
      rw [List.cons_append, List.map_cons, List.map_append] at hm ⊢
      simp only [Tag.Pattern.matchesFrom, hm]
      rw [hlen, Tag.Pattern.matchesFrom_skip, List.length_cons, Nat.add_sub_cancel,
        List.drop_left' (List.length_map _), Nat.add_assoc, Nat.add_comm 1]
    have ho : t.occurrence ⟨offset, e⟩ = ⟨⟨offset, e⟩, .ofChars x⟩ := by
      rw [StyledText.occurrence, Occurrence.mk.injEq, StyledText.eq_ofChars_iff,
        StyledText.chars_extract, Tag.Match.span, Nat.add_sub_cancel_left, hlen, hd,
        List.take_left]
      exact ⟨rfl, rfl⟩
    rw [hscan]
    simp only [answers, weave, ho, Tag.Match.span, hlen]
    rw [Nat.sub_self, List.take_zero, List.nil_append] at hw
    rw [hw, hs, List.append_assoc]
    exact ⟨rfl, rfl⟩

/-- **What a pass makes of a text, and the state of its rule then.** -/
theorem rewritten_eq {t : StyledText} (h : Passes p rule 0 s t.chars out s') :
    t.rewritten p rule s = .ofChars out ∧ (answers t rule s (p.matches t.text)).2 = s' := by
  obtain ⟨hw, hs⟩ := h.weave_answers (k := 0) rfl (Nat.le_refl _)
  rw [← StyledText.text_eq_map_chars] at hw hs
  rw [List.drop_zero, Nat.sub_zero, List.take_zero, List.nil_append] at hw
  exact ⟨congrArg StyledText.ofChars hw, hs⟩

/-- The same for a rule without state. -/
theorem replaced_eq {t : StyledText} {rule : Occurrence → StyledText}
    (h : Passes p (fun _ o => (rule o, ())) 0 () t.chars out ()) :
    t.replaced p rule = .ofChars out := by
  rw [← h.rewritten_eq.1, StyledText.rewritten, StyledText.answers_stateless, StyledText.replaced]

end Passes

end Passage
