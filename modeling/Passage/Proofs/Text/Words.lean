import Passage.Text.Blank

/-! Words: the maximal stretches of a list that hold no separator. A separator belongs to no word
and parts the words on its two sides (`wordsBy_append_cons`), and every other equation follows from
that one. -/

namespace Passage

variable {α β : Type} {q : α → Bool} {cs : List α}

/-- The maximal stretches without separators, in order. -/
def wordsBy (q : α → Bool) (cs : List α) : List (List α) :=
  (cs.splitOnP q).filter (!·.isEmpty)

@[simp] theorem wordsBy_nil : wordsBy q [] = [] := rfl

theorem wordsBy_append_cons {c : α} (hc : q c = true) (xs ys : List α) :
    wordsBy q (xs ++ c :: ys) = wordsBy q xs ++ wordsBy q ys := by
  rw [wordsBy, List.splitOnP_append_cons xs ys hc, List.filter_append]
  rfl

theorem wordsBy_cons {c : α} (hc : q c = true) (cs : List α) :
    wordsBy q (c :: cs) = wordsBy q cs :=
  wordsBy_append_cons hc [] cs

/-- Separators before a text belong to no word of it. -/
theorem wordsBy_append_of_forall {gap : List α} (hgap : ∀ c ∈ gap, q c = true) (cs : List α) :
    wordsBy q (gap ++ cs) = wordsBy q cs := by
  induction gap with
  | nil => rfl
  | cons c gap ih =>
    obtain ⟨hc, hgap⟩ := List.forall_mem_cons.mp hgap
    rw [List.cons_append, wordsBy_cons hc, ih hgap]

/-- Separators after a text belong to no word of it. -/
theorem wordsBy_append_gap (cs : List α) {gap : List α} (hgap : ∀ c ∈ gap, q c = true) :
    wordsBy q (cs ++ gap) = wordsBy q cs := by
  cases gap with
  | nil => rw [List.append_nil]
  | cons c gap =>
    obtain ⟨hc, hgap⟩ := List.forall_mem_cons.mp hgap
    have h := wordsBy_append_of_forall hgap []
    rw [List.append_nil, wordsBy_nil] at h
    rw [wordsBy_append_cons hc, h, List.append_nil]

/-- A stretch without separators that the text does not continue is one word. -/
theorem wordsBy_append_word {w : List α} (hne : w ≠ []) (hw : ∀ c ∈ w, q c = false)
    (hcs : cs.head?.all q = true) : wordsBy q (w ++ cs) = w :: wordsBy q cs := by
  have hword : wordsBy q w = [w] := by
    rw [wordsBy, List.splitOnP_eq_singleton hw]
    simp [hne]
  cases cs with
  | nil => rw [List.append_nil, hword, wordsBy_nil]
  | cons c cs =>
    have hc : q c = true := hcs
    rw [wordsBy_append_cons hc, hword, wordsBy_cons hc, List.singleton_append]

/-- The words have all characters but the separators, in order. -/
theorem flatten_wordsBy (q : α → Bool) (cs : List α) :
    (wordsBy q cs).flatten = cs.filter (!q ·) := by
  rw [wordsBy, List.flatten_filter_not_isEmpty]
  induction cs with
  | nil => rfl
  | cons c cs ih =>
    obtain ⟨w, ws, hws⟩ := List.exists_cons_of_ne_nil (List.splitOnP_ne_nil q cs)
    rw [List.splitOnP_cons_eq_if_modifyHead, List.filter_cons, ← ih, hws]
    cases q c <;> rfl

theorem wordsBy_eq_nil_iff : wordsBy q cs = [] ↔ ∀ c ∈ cs, q c = true := by
  constructor
  · intro h c hc
    have hkept := flatten_wordsBy q cs
    rw [h, List.flatten_nil, eq_comm, List.filter_eq_nil_iff] at hkept
    simpa using hkept c hc
  · intro h
    have hgap := wordsBy_append_of_forall h []
    rwa [List.append_nil, wordsBy_nil] at hgap

/-- Words of a mapped text. -/
theorem wordsBy_map (f : β → α) (ds : List β) :
    wordsBy q (ds.map f) = (wordsBy (fun d => q (f d)) ds).map (List.map f) := by
  have hsplit : (ds.map f).splitOnP q = (ds.splitOnP fun d => q (f d)).map (List.map f) := by
    induction ds with
    | nil => rfl
    | cons d ds ih =>
      rw [List.map_cons, List.splitOnP_cons_eq_if_modifyHead, List.splitOnP_cons_eq_if_modifyHead,
        ih]
      split
      · rfl
      · cases ds.splitOnP fun d => q (f d) <;> rfl
  rw [wordsBy, wordsBy, hsplit, List.filter_map]
  congr 2
  funext w
  cases w <;> rfl

theorem map_intercalate (f : β → α) (sep : List β) (ws : List (List β)) :
    (sep.intercalate ws).map f = (sep.map f).intercalate (ws.map (List.map f)) := by
  induction ws with
  | nil => rfl
  | cons w ws ih =>
    cases ws with
    | nil => simp
    | cons v ws =>
      rw [List.intercalate_cons_cons, List.map_append, List.map_append, ih]
      simp [List.intercalate_cons_cons]

end Passage
