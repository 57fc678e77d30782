import Mathlib.Data.List.Basic
import Mathlib.Data.List.Forall2

/-! Lists that are read item by item, where an item may be refused. All items are read exactly if
each of them is (`mapM_eq_ok_iff`); one that is refused spoils the list (`mapM_eq_none`), and the
first such item is the error (`mapM_eq_error_iff`). -/

namespace Passage

section Option
variable {α β : Type} {f g : α → Option β} {l : List α}

theorem mapM_congr (h : ∀ a ∈ l, f a = g a) : l.mapM f = l.mapM g := by
  induction l with
  | nil => rfl
  | cons a l ih =>
    obtain ⟨ha, hl⟩ := List.forall_mem_cons.mp h
    rw [List.mapM_cons, List.mapM_cons, ha, ih hl]

theorem mapM_eq_some_filterMap (h : ∀ a ∈ l, f a ≠ none) : l.mapM f = some (l.filterMap f) := by
  induction l with
  | nil => rfl
  | cons a l ih =>
    obtain ⟨b, hb⟩ := Option.ne_none_iff_exists'.1 (h a List.mem_cons_self)
    rw [List.mapM_cons, hb, ih fun c hc => h c (List.mem_cons_of_mem _ hc),
      List.filterMap_cons_some hb]
    rfl

theorem mapM_eq_none {a : α} (ha : a ∈ l) (h : f a = none) : l.mapM f = none := by
  induction l with
  | nil => cases ha
  | cons b l ih =>
    rw [List.mapM_cons]
    cases hb : f b with
    | none => rfl
    | some c =>
      have hl : l.mapM f = none := by
        rcases List.mem_cons.1 ha with rfl | ha
        · rw [h] at hb
          cases hb
        · exact ih ha
      rw [hl]
      rfl

end Option

section Except
variable {α β ε : Type} {f : α → Except ε β} {l : List α}

theorem mapM_eq_ok_iff {bs : List β} :
    l.mapM f = .ok bs ↔ List.Forall₂ (fun a b => f a = .ok b) l bs := by
  induction l generalizing bs with
  | nil =>
    rw [List.mapM_nil, List.forall₂_nil_left_iff]
    exact ⟨fun h => (Except.ok.inj h).symm, fun h => h ▸ rfl⟩
  | cons a l ih =>
    rw [List.mapM_cons, List.forall₂_cons_left_iff]
    cases ha : f a with
    | error e => simp [bind, Except.bind]
    | ok b =>
      cases hl : l.mapM f with
      | error e => simp [bind, Except.bind, ← ih, hl]
      | ok cs =>
        simp only [bind, Except.bind, pure, Except.pure, Except.ok.injEq, ← ih, hl]
        constructor
        · rintro rfl
          exact ⟨b, cs, rfl, rfl, rfl⟩
        · rintro ⟨_, _, rfl, rfl, rfl⟩
          rfl

/-- The error is that of the first item that is refused. -/
theorem mapM_eq_error_iff {e : ε} :
    l.mapM f = .error e ↔ ∃ front a back, l = front ++ a :: back ∧
      (∀ b ∈ front, ∃ c, f b = .ok c) ∧ f a = .error e := by
  induction l with
  | nil => simp [pure, Except.pure]
  | cons a l ih =>
    rw [List.mapM_cons]
    cases ha : f a with
    | error e' =>
      simp only [bind, Except.bind, Except.error.injEq]
      constructor
      · rintro rfl
        exact ⟨[], a, l, rfl, by simp, ha⟩
      · rintro ⟨_ | ⟨b, front⟩, c, back, heq, hfront, hc⟩
        · obtain ⟨rfl, rfl⟩ := List.cons.inj heq
          exact Except.error.inj (ha.symm.trans hc)
        · obtain ⟨rfl, -⟩ := List.cons.inj heq
          obtain ⟨d, hd⟩ := hfront _ List.mem_cons_self
          rw [ha] at hd
          cases hd
    | ok b =>
      have hstep : ((Except.ok b : Except ε β) >>= fun b => l.mapM f >>= fun bs => pure (b :: bs)) =
          .error e ↔ l.mapM f = .error e := by
        cases l.mapM f <;> simp [bind, Except.bind, pure, Except.pure]
      rw [hstep, ih]
      constructor
      · rintro ⟨front, c, back, rfl, hfront, hc⟩
        exact ⟨a :: front, c, back, rfl, List.forall_mem_cons.mpr ⟨⟨b, ha⟩, hfront⟩, hc⟩
      · rintro ⟨_ | ⟨d, front⟩, c, back, heq, hfront, hc⟩
        · obtain ⟨rfl, rfl⟩ := List.cons.inj heq
          rw [ha] at hc
          cases hc
        · obtain ⟨rfl, rfl⟩ := List.cons.inj heq
          exact ⟨front, c, back, rfl, (List.forall_mem_cons.mp hfront).2, hc⟩

end Except

end Passage
