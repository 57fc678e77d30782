import Mathlib.Data.List.DropRight
import Passage.Text.Blank

/-! Trimming. A text is what trimming leaves of it between two stretches of the trimmed class
(`exists_trimBoth`), and such stretches at the ends of a text change nothing of what is left. A
character outside the class parts the text into two that are trimmed at one end each. -/

namespace Passage.Text

variable {p : Char → Bool} {cs : List Char}

theorem exists_trimBoth (p : Char → Bool) (cs : List Char) :
    ∃ before after, cs = before ++ (trimBoth p cs ++ after) ∧
      (∀ c ∈ before, p c = true) ∧ ∀ c ∈ after, p c = true := by
  refine ⟨cs.takeWhile p, (cs.dropWhile p).rtakeWhile p, ?_,
    fun _ hc => List.mem_takeWhile_imp hc, fun _ hc => List.mem_rtakeWhile_imp hc⟩
  have hright : trimBoth p cs ++ (cs.dropWhile p).rtakeWhile p = cs.dropWhile p :=
    List.rdropWhile_append_rtakeWhile
  rw [hright, List.takeWhile_append_dropWhile]

theorem rdropWhile_of_forall {gap : List Char} (h : ∀ c ∈ gap, p c = true) (cs : List Char) :
    (cs ++ gap).rdropWhile p = cs.rdropWhile p := by
  rw [List.rdropWhile, List.reverse_append,
    List.dropWhile_append_of_pos fun c hc => h c (List.mem_reverse.mp hc)]
  rfl

theorem trimBoth_append_left {gap : List Char} (h : ∀ c ∈ gap, p c = true) (cs : List Char) :
    trimBoth p (gap ++ cs) = trimBoth p cs := by
  rw [trimBoth, List.dropWhile_append_of_pos h]
  rfl

theorem trimBoth_append_right {gap : List Char} (h : ∀ c ∈ gap, p c = true) (cs : List Char) :
    trimBoth p (cs ++ gap) = trimBoth p cs := by
  change ((cs ++ gap).dropWhile p).rdropWhile p = (cs.dropWhile p).rdropWhile p
  rw [List.dropWhile_append]
  split
  · rename_i hnil
    rw [List.dropWhile_eq_nil_iff.mpr h, List.isEmpty_iff.mp hnil]
  · exact rdropWhile_of_forall h _

theorem trimBoth_dropWhile (p : Char → Bool) (cs : List Char) :
    trimBoth p (cs.dropWhile p) = trimBoth p cs := by
  conv_rhs => rw [← List.takeWhile_append_dropWhile (p := p) (l := cs)]
  exact (trimBoth_append_left (fun _ hc => List.mem_takeWhile_imp hc) _).symm

theorem trimBoth_rdropWhile (p : Char → Bool) (cs : List Char) :
    trimBoth p (cs.rdropWhile p) = trimBoth p cs := by
  conv_rhs => rw [← List.rdropWhile_append_rtakeWhile (p := p) (l := cs)]
  exact (trimBoth_append_right (fun _ hc => List.mem_rtakeWhile_imp hc) _).symm

theorem trimBoth_trimBoth (p : Char → Bool) (cs : List Char) :
    trimBoth p (trimBoth p cs) = trimBoth p cs :=
  (trimBoth_rdropWhile p (cs.dropWhile p)).trans (trimBoth_dropWhile p cs)

theorem trimBoth_eq_nil_iff : trimBoth p cs = [] ↔ ∀ c ∈ cs, p c = true := by
  constructor
  · intro h
    obtain ⟨before, after, hcs, hbefore, hafter⟩ := exists_trimBoth p cs
    rw [h, List.nil_append] at hcs
    rw [hcs]
    intro c hc
    exact (List.mem_append.mp hc).elim (hbefore c) (hafter c)
  · intro h
    rw [trimBoth, List.dropWhile_eq_nil_iff.mpr h]
    rfl

/-- A text that starts and ends outside the class is left as it is. -/
theorem trimBoth_eq_self (hfirst : ∀ c ∈ cs.head?, p c = false)
    (hlast : ∀ c ∈ cs.getLast?, p c = false) : trimBoth p cs = cs := by
  have hdrop {cs : List Char} (h : ∀ c ∈ cs.head?, p c = false) : cs.dropWhile p = cs := by
    cases cs with
    | nil => rfl
    | cons c cs => exact List.dropWhile_cons_of_neg (by simp [h c rfl])
  rw [trimBoth, hdrop hfirst, hdrop (by rwa [List.head?_reverse]), List.reverse_reverse]

/-- A character outside the class keeps what is behind it from the left end, and what is before it
from the right end. -/
theorem trimBoth_append_cons {c : Char} (hc : p c = false) (xs ys : List Char) :
    trimBoth p (xs ++ c :: ys) = xs.dropWhile p ++ c :: ys.rdropWhile p := by
  have hstop {c : Char} (hc : p c = false) (xs ys : List Char) :
      (xs ++ c :: ys).dropWhile p = xs.dropWhile p ++ c :: ys := by
    rw [List.dropWhile_append, List.dropWhile_cons_of_neg (by simp [hc])]
    split
    · rename_i hnil
      rw [List.isEmpty_iff.mp hnil, List.nil_append]
    · rfl
  rw [trimBoth, hstop hc, List.reverse_append, List.reverse_cons, List.append_assoc,
    List.singleton_append, hstop hc]
  simp [List.rdropWhile]

end Passage.Text
