import Mathlib.Data.List.Basic
import Mathlib.Data.List.DropRight

/-! The lines of a text are the stretches between its line feeds, except that a line feed at the
very end closes a line and opens none. A character stands on the line that the line feeds before
it count (`getElem?_lines`). -/

namespace Passage.Text

/-- The stretches of a text between line feeds, without the last one if that is empty. -/
def lines (cs : List Char) : List (List Char) :=
  let stretches := cs.splitOn '\n'
  if stretches.getLast?.any List.isEmpty then stretches.dropLast else stretches

/-! ## Stretches between line feeds -/

theorem splitOn_lineFeed_append {cs : List Char} (h : '\n' ∉ cs) (ds : List Char) :
    (cs ++ ds).splitOn '\n' = (ds.splitOn '\n').modifyHead (cs ++ ·) := by
  induction cs with
  | nil =>
    obtain ⟨line, rest, heq⟩ := List.exists_cons_of_ne_nil (List.splitOn_ne_nil '\n' ds)
    rw [List.nil_append, heq, List.modifyHead_cons, List.nil_append]
  | cons c cs ih =>
    obtain ⟨hc, hcs⟩ := List.ne_and_not_mem_of_not_mem_cons h
    rw [List.cons_append, List.splitOn_cons_eq_if_modifyHead, if_neg (by simpa using Ne.symm hc),
      ih hcs, List.modifyHead_modifyHead]
    rfl

theorem lineFeed_notMem_of_mem_splitOn {cs line : List Char} (h : line ∈ cs.splitOn '\n') :
    '\n' ∉ line := by
  induction cs generalizing line with
  | nil =>
    rw [List.splitOn_nil, List.mem_singleton] at h
    rw [h]
    exact List.not_mem_nil
  | cons c cs ih =>
    rw [List.splitOn_cons_eq_if_modifyHead] at h
    split at h
    · rcases List.mem_cons.mp h with rfl | h
      · exact List.not_mem_nil
      · exact ih h
    · rename_i hc
      obtain ⟨first, rest, heq⟩ := List.exists_cons_of_ne_nil (List.splitOn_ne_nil '\n' cs)
      rw [heq, List.modifyHead_cons] at h
      rcases List.mem_cons.mp h with rfl | h
      · intro hmem
        rcases List.mem_cons.mp hmem with rfl | hmem
        · exact hc rfl
        · exact ih (heq ▸ List.mem_cons_self) hmem
      · exact ih (heq ▸ List.mem_cons_of_mem first h)

theorem length_splitOn_lineFeed (cs : List Char) :
    (cs.splitOn '\n').length = cs.count '\n' + 1 := by
  induction cs with
  | nil => rfl
  | cons c cs ih =>
    rw [List.splitOn_cons_eq_if_modifyHead, List.count_cons]
    split
    · rw [List.length_cons, ih]
    · rw [List.length_modifyHead, ih]

theorem head?_splitOn_lineFeed (cs : List Char) :
    (cs.splitOn '\n').head? = some (cs.takeWhile (· != '\n')) := by
  induction cs with
  | nil => rfl
  | cons c cs ih =>
    rw [List.splitOn_cons_eq_if_modifyHead, List.takeWhile_cons]
    by_cases hc : c = '\n'
    · subst hc
      rfl
    · rw [if_neg (by simpa using hc), List.head?_modifyHead, ih, if_pos (by simpa using hc)]
      rfl

/-- A text up to its last line feed, and what follows that. -/
theorem split_lastLineFeed (cs : List Char) :
    '\n' ∉ cs.rtakeWhile (· != '\n') ∧
      (cs.rtakeWhile (· != '\n') = cs ∨
        ∃ front, cs = front ++ '\n' :: cs.rtakeWhile (· != '\n')) := by
  refine ⟨fun h => by simpa using List.mem_rtakeWhile_imp h, ?_⟩
  have hcs : cs.rdropWhile (· != '\n') ++ cs.rtakeWhile (· != '\n') = cs :=
    List.rdropWhile_append_rtakeWhile
  cases hfront : (cs.rdropWhile (· != '\n')).eq_nil_or_concat' with
  | inl hnil =>
    left
    rwa [hnil, List.nil_append] at hcs
  | inr hconcat =>
    right
    obtain ⟨front, c, heq⟩ := hconcat
    have hne : cs.rdropWhile (· != '\n') ≠ [] := by rw [heq]; exact List.concat_ne_nil c front
    have hlast := List.rdropWhile_last_not (· != '\n') cs hne
    simp only [heq, List.getLast_concat, bne_iff_ne, ne_eq, not_not] at hlast
    refine ⟨front, ?_⟩
    rw [heq, hlast] at hcs
    rw [← List.append_cons] at hcs
    exact hcs.symm

/-- The stretch that a place in a text lies on. -/
theorem getElem?_splitOn_lineFeed (front back : List Char) :
    ((front ++ back).splitOn '\n')[front.count '\n']? =
      some (front.rtakeWhile (· != '\n') ++ back.takeWhile (· != '\n')) := by
  obtain ⟨hfree, hfront⟩ := split_lastLineFeed front
  have hhead : ((front.rtakeWhile (· != '\n') ++ back).splitOn '\n')[0]? =
      some (front.rtakeWhile (· != '\n') ++ back.takeWhile (· != '\n')) := by
    rw [← List.head?_eq_getElem?, splitOn_lineFeed_append hfree, List.head?_modifyHead,
      head?_splitOn_lineFeed]
    rfl
  rcases hfront with heq | ⟨before, heq⟩
  · rw [heq] at hfree hhead ⊢
    rwa [List.count_eq_zero_of_not_mem hfree]
  · generalize front.rtakeWhile (· != '\n') = line at hfree heq hhead ⊢
    subst heq
    have hcount : (before ++ '\n' :: line).count '\n' = (before.splitOn '\n').length + 0 := by
      rw [List.count_append, List.count_cons_self, List.count_eq_zero_of_not_mem hfree,
        length_splitOn_lineFeed]
    rw [List.append_assoc, List.cons_append, List.splitOn_append_cons_self, hcount,
      List.getElem?_append_right (Nat.le_add_right _ _), Nat.add_sub_cancel_left]
    exact hhead

/-! ## Lines -/

@[simp] theorem lines_nil : lines [] = [] := rfl

theorem lines_concat_lineFeed (cs : List Char) : lines (cs ++ ['\n']) = cs.splitOn '\n' := by
  have hstretches : (cs ++ ['\n']).splitOn '\n' = cs.splitOn '\n' ++ [[]] :=
    List.splitOn_append_cons_self cs []
  simp only [lines]
  rw [hstretches, List.getLast?_concat]
  exact List.dropLast_concat

theorem lines_of_open {cs : List Char} (hne : cs ≠ []) (hlast : cs.getLast? ≠ some '\n') :
    lines cs = cs.splitOn '\n' := by
  have hend := getElem?_splitOn_lineFeed cs []
  rw [List.append_nil, List.takeWhile_nil, List.append_nil] at hend
  have hget : (cs.splitOn '\n').getLast? = some (cs.rtakeWhile (· != '\n')) := by
    rw [List.getLast?_eq_getElem?, length_splitOn_lineFeed, Nat.add_sub_cancel, hend]
  obtain ⟨front, c, rfl⟩ := cs.eq_nil_or_concat'.resolve_left hne
  have hc : c ≠ '\n' := by simpa using hlast
  have hline : (front ++ [c]).rtakeWhile (· != '\n') =
      front.rtakeWhile (· != '\n') ++ [c] := by
    rw [List.rtakeWhile_concat, if_pos (by simpa using hc)]
  simp only [lines]
  rw [hget, hline, if_neg (by simp)]

/-- A text is empty, or ends in a line feed, or leaves its last line open. -/
theorem lines_cases {motive : List Char → Prop} (nil : motive [])
    (closed : ∀ front, motive (front ++ ['\n']))
    (last_open : ∀ cs, cs ≠ [] → cs.getLast? ≠ some '\n' → motive cs) (cs : List Char) :
    motive cs := by
  rcases cs.eq_nil_or_concat' with rfl | ⟨front, c, rfl⟩
  · exact nil
  · by_cases hc : c = '\n'
    · subst hc
      exact closed front
    · exact last_open _ (List.concat_ne_nil c front) (by simpa using hc)

theorem intercalate_lines (cs : List Char) :
    ['\n'].intercalate (lines cs) = if cs.getLast? = some '\n' then cs.dropLast else cs := by
  induction cs using lines_cases with
  | nil => rfl
  | closed front =>
    rw [lines_concat_lineFeed, List.intercalate_splitOn, List.getLast?_concat, if_pos rfl,
      List.dropLast_concat]
  | last_open cs hne hlast =>
    rw [lines_of_open hne hlast, List.intercalate_splitOn, if_neg hlast]

theorem length_lines (cs : List Char) :
    (lines cs).length =
      cs.count '\n' + if cs = [] ∨ cs.getLast? = some '\n' then 0 else 1 := by
  induction cs using lines_cases with
  | nil => rfl
  | closed front =>
    rw [lines_concat_lineFeed, length_splitOn_lineFeed, List.count_append, List.getLast?_concat,
      if_pos (.inr rfl)]
    rfl
  | last_open cs hne hlast =>
    rw [lines_of_open hne hlast, length_splitOn_lineFeed, if_neg (not_or.mpr ⟨hne, hlast⟩)]

theorem lineFeed_notMem_of_mem_lines {cs line : List Char} (h : line ∈ lines cs) :
    '\n' ∉ line := by
  simp only [lines] at h
  split at h
  · exact lineFeed_notMem_of_mem_splitOn (List.dropLast_subset _ h)
  · exact lineFeed_notMem_of_mem_splitOn h

/-- A character stands on the line that the line feeds before it count. -/
theorem getElem?_lines (front back : List Char) {c : Char} (hc : c ≠ '\n') :
    (lines (front ++ c :: back))[front.count '\n']? =
      some (front.rtakeWhile (· != '\n') ++ c :: back.takeWhile (· != '\n')) := by
  have hstretch := getElem?_splitOn_lineFeed front (c :: back)
  rw [List.takeWhile_cons_of_pos (by simpa using hc)] at hstretch
  rcases back.eq_nil_or_concat' with rfl | ⟨middle, d, rfl⟩
  · rw [lines_of_open (by simp) (by simpa using hc), hstretch]
  · by_cases hd : d = '\n'
    · subst hd
      have hmiddle := getElem?_splitOn_lineFeed front (c :: middle)
      rw [List.takeWhile_cons_of_pos (by simpa using hc)] at hmiddle
      have htake : (middle ++ ['\n']).takeWhile (· != '\n') = middle.takeWhile (· != '\n') := by
        rw [List.takeWhile_append]
        split
        · rename_i hall
          rw [List.takeWhile_cons_of_neg (by simp), List.append_nil,
            (List.takeWhile_prefix _).eq_of_length hall]
        · rfl
      rw [← List.cons_append, ← List.append_assoc, lines_concat_lineFeed, htake]
      exact hmiddle
    · have hlast : (front ++ c :: (middle ++ [d])).getLast? ≠ some '\n' := by
        rw [← List.cons_append, ← List.append_assoc, List.getLast?_concat]
        exact fun h => hd (Option.some.inj h)
      rw [lines_of_open (by simp) hlast, hstretch]

end Passage.Text
