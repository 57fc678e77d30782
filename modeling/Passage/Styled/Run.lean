import Passage.Style.Set

/-! Runs: stretches of characters under one style set. A list of runs is a way to
write down a list of styled characters (`charsOf`). Among all lists for the same
characters one is canonical: no run is empty and neighbours differ in style.
`normalize` finds it without touching the characters, and two canonical lists
for the same characters are equal. -/

namespace Passage

abbrev StyledChar := Char × StyleSet

structure Run where
  text : List Char
  styles : StyleSet
deriving DecidableEq

namespace Run

def chars (r : Run) : List StyledChar :=
  r.text.map fun c => (c, r.styles)

/-- The styled characters that a list of runs writes down. -/
def charsOf (rs : List Run) : List StyledChar :=
  rs.flatMap chars

/-- No run is empty and neighbours differ in style. -/
def Canonical : List Run → Prop
  | [] => True
  | [r] => r.text ≠ []
  | r :: s :: rest => r.text ≠ [] ∧ r.styles ≠ s.styles ∧ Canonical (s :: rest)

/-- Puts a run before others: an empty one leaves nothing, one in the style of its
neighbour becomes part of it. -/
def join (r : Run) (rs : List Run) : List Run :=
  if r.text.isEmpty then rs
  else
    match rs with
    | [] => [r]
    | s :: rest =>
      if r.styles = s.styles then ⟨r.text ++ s.text, r.styles⟩ :: rest else r :: s :: rest

/-- The canonical list for the same characters. -/
def normalize (rs : List Run) : List Run :=
  rs.foldr join []

@[simp] theorem charsOf_nil : charsOf [] = [] := rfl

@[simp] theorem charsOf_cons (r : Run) (rs : List Run) :
    charsOf (r :: rs) = r.chars ++ charsOf rs := by
  simp [charsOf]

@[simp] theorem charsOf_append (rs ss : List Run) :
    charsOf (rs ++ ss) = charsOf rs ++ charsOf ss := by
  simp [charsOf]

theorem charsOf_join (r : Run) (rs : List Run) :
    charsOf (join r rs) = r.chars ++ charsOf rs := by
  unfold join
  split
  · rename_i h
    simp [chars, List.isEmpty_iff.mp h]
  · split
    · simp
    · rename_i s rest
      split
      · rename_i h
        simp [chars, h]
      · simp

theorem charsOf_normalize (rs : List Run) : charsOf (normalize rs) = charsOf rs := by
  induction rs with
  | nil => rfl
  | cons r rs ih =>
    have h := charsOf_join r (normalize rs)
    simp only [normalize, List.foldr_cons] at h ih ⊢
    rw [h, ih, charsOf_cons]

theorem canonical_join {r : Run} {rs : List Run} (h : Canonical rs) :
    Canonical (join r rs) := by
  unfold join
  split
  · exact h
  · rename_i hr
    have hr : r.text ≠ [] := fun e => hr (by simp [e])
    split
    · exact hr
    · rename_i s rest
      split
      · rename_i he
        cases rest with
        | nil => simp [Canonical, hr]
        | cons t rest =>
          obtain ⟨-, hst, ht⟩ := h
          exact ⟨by simp [hr], he ▸ hst, ht⟩
      · rename_i hne
        exact ⟨hr, hne, h⟩

theorem canonical_normalize (rs : List Run) : Canonical (normalize rs) := by
  induction rs with
  | nil => trivial
  | cons r rs ih => exact canonical_join ih

theorem Canonical.tail {r : Run} {rs : List Run} (h : Canonical (r :: rs)) : Canonical rs := by
  cases rs with
  | nil => trivial
  | cons s rest => exact h.2.2

theorem Canonical.text_ne_nil {r : Run} {rs : List Run} (h : Canonical (r :: rs)) :
    r.text ≠ [] := by
  cases rs with
  | nil => exact h
  | cons s rest => exact h.1

/-- The first character after a run of a canonical list has another style. -/
theorem Canonical.head_styles_ne {r : Run} {rs : List Run} (h : Canonical (r :: rs))
    {c : StyledChar} {cs : List StyledChar} (hc : charsOf rs = c :: cs) : c.2 ≠ r.styles := by
  cases rs with
  | nil => simp at hc
  | cons s rest =>
    obtain ⟨-, hne, hs⟩ := h
    obtain ⟨d, ds, hd⟩ := List.exists_cons_of_ne_nil hs.text_ne_nil
    rw [charsOf_cons, chars, hd, List.map_cons, List.cons_append] at hc
    have hcs : (d, s.styles) = c := (List.cons.inj hc).1
    subst hcs
    exact fun e => hne e.symm

theorem eq_of_same_style {x y : List Char} {st : StyleSet} {u v : List StyledChar}
    (hu : ∀ c cs, u = c :: cs → c.2 ≠ st) (hv : ∀ c cs, v = c :: cs → c.2 ≠ st)
    (h : x.map (fun c => (c, st)) ++ u = y.map (fun c => (c, st)) ++ v) : x = y ∧ u = v := by
  induction x generalizing y with
  | nil =>
    cases y with
    | nil => exact ⟨rfl, by simpa using h⟩
    | cons d y => exact absurd rfl (hu (d, st) _ (by simpa using h))
  | cons c x ih =>
    cases y with
    | nil => exact absurd rfl (hv (c, st) _ (by simpa using h.symm))
    | cons d y =>
      simp only [List.map_cons, List.cons_append, List.cons.injEq, Prod.mk.injEq, and_true] at h
      obtain ⟨rfl, h⟩ := h
      obtain ⟨rfl, huv⟩ := ih h
      exact ⟨rfl, huv⟩

/-- Canonical lists for the same characters are equal. -/
theorem Canonical.eq_of_charsOf_eq {rs ss : List Run} (hr : Canonical rs) (hs : Canonical ss)
    (h : charsOf rs = charsOf ss) : rs = ss := by
  induction rs generalizing ss with
  | nil =>
    cases ss with
    | nil => rfl
    | cons s ss =>
      have hne := hs.text_ne_nil
      simp [chars] at h
      exact absurd h.1 hne
  | cons r rs ih =>
    cases ss with
    | nil =>
      have hne := hr.text_ne_nil
      simp [chars] at h
      exact absurd h.1 hne
    | cons s ss =>
      have hst : r.styles = s.styles := by
        obtain ⟨c, cs, hc⟩ := List.exists_cons_of_ne_nil hr.text_ne_nil
        obtain ⟨d, ds, hd⟩ := List.exists_cons_of_ne_nil hs.text_ne_nil
        simp only [charsOf_cons, chars, hc, hd, List.map_cons, List.cons_append] at h
        exact congrArg Prod.snd (List.cons.inj h).1
      rw [charsOf_cons, charsOf_cons, chars, chars, ← hst] at h
      obtain ⟨htext, hrest⟩ := eq_of_same_style (fun c cs e => hr.head_styles_ne e)
        (fun c cs e => hst ▸ hs.head_styles_ne e) h
      have hrs : r = s := by
        cases r; cases s; simp_all
      rw [hrs, ih hr.tail hs.tail hrest]

theorem normalize_of_canonical {rs : List Run} (h : Canonical rs) : normalize rs = rs :=
  (canonical_normalize rs).eq_of_charsOf_eq h (charsOf_normalize rs)

/-! ## Cutting by characters -/

/-- The runs of the first `n` characters and those of the rest. -/
def cut (n : Nat) : List Run → List Run × List Run
  | [] => ([], [])
  | r :: rs =>
    if (r.text.drop n).isEmpty then
      let (front, back) := cut (n - r.text.length) rs
      (r :: front, back)
    else ([⟨r.text.take n, r.styles⟩], ⟨r.text.drop n, r.styles⟩ :: rs)

theorem charsOf_cut (n : Nat) (rs : List Run) :
    charsOf (cut n rs).1 = (charsOf rs).take n ∧ charsOf (cut n rs).2 = (charsOf rs).drop n := by
  induction rs generalizing n with
  | nil => simp [cut]
  | cons r rs ih =>
    unfold cut
    split
    · rename_i h
      have hle : r.text.length ≤ n := by simpa using h
      obtain ⟨h1, h2⟩ := ih (n - r.text.length)
      have hlen : r.chars.length = r.text.length := by simp [chars]
      have htake : r.chars.take n = r.chars := List.take_of_length_le (hlen ▸ hle)
      have hdrop : r.chars.drop n = [] := List.drop_eq_nil_of_le (hlen ▸ hle)
      simp only [charsOf_cons, h1, h2, List.take_append, List.drop_append, hlen, htake, hdrop,
        List.nil_append, and_self]
    · rename_i h
      have hlt : n < r.text.length := by simpa using h
      have hlen : r.chars.length = r.text.length := by simp [chars]
      simp only [charsOf_cons, charsOf_nil, List.append_nil, List.take_append, List.drop_append,
        hlen, Nat.sub_eq_zero_of_le (Nat.le_of_lt hlt), List.take_zero, List.drop_zero]
      simp [chars]

end Run

end Passage
