import Passage.Note.Body
import Passage.Proofs.Note.Attributes

/-! The grammar of note bodies: texts without `<` and elements, one after the other. A text beside a
text is read together with it, so the segments of a body are not fixed by its spelling; but its
references and the text outside them are (`Body.exists_readAll?`). -/

namespace Passage.NoteSegment

open NoteAttribute (Items value? Ends)
open Tag (Stops)

/-- Texts and elements, one after the other. -/
inductive Body : List NoteSegment → List Char → Prop
  | nil : Body [] []
  | text {x : List Char} {segments : List NoteSegment} {cs : List Char} (hne : x ≠ [])
      (hx : '<' ∉ x) (h : Body segments cs) : Body (.text x :: segments) (x ++ cs)
  | element {items : List NoteAttribute} {list style x : List Char} {segments : List NoteSegment}
      {cs : List Char} (hlist : Items items list) (hstyle : value? items "style" = some style)
      (hx : '<' ∉ x) (h : Body segments cs) :
      Body (.element style x :: segments)
        ("<char".toList ++ (list ++ ('>' :: (x ++ ("</char>".toList ++ cs)))))

/-- The text outside the references. -/
def plainText (segments : List NoteSegment) : List Char :=
  (segments.filter (!·.isReference)).flatMap content

/-- The same references, and together the same text outside these. -/
structure ReadAs (xs ys : List NoteSegment) : Prop where
  references : xs.filter isReference = ys.filter isReference
  text : plainText xs = plainText ys

variable {s : NoteSegment} {segments : List NoteSegment} {cs rest : List Char}

/-! ## One segment -/

/-- An attribute list ends with its tag. -/
theorem ends_close (cs : List Char) : Ends ('>' :: cs) where
  stops := Tag.stops_cons rfl cs
  none := rfl

theorem stops_closing (cs : List Char) : Stops (· != '<') ("</char>".toList ++ cs) :=
  Tag.stops_cons rfl _

/-- **What is read as an element** is one, whichever way its attribute list is spelled. -/
theorem readElement?_eq_some_iff : readElement? cs = some (s, rest) ↔
    ∃ items list style x, Items items list ∧ value? items "style" = some style ∧ '<' ∉ x ∧
      s = .element style x ∧
      cs = "<char".toList ++ (list ++ ('>' :: (x ++ ("</char>".toList ++ rest)))) := by
  constructor
  · intro h
    simp only [readElement?, bind, Option.bind_eq_some_iff, pure, Option.some.injEq,
      Prod.mk.injEq, Text.dropLiteral?_eq_some_iff] at h
    obtain ⟨cs₁, rfl, cs₂, h₂, cs₃, h₃, style, hstyle, rfl, rfl⟩ := h
    obtain ⟨list, hlist, h₁⟩ := NoteAttribute.items_readMany cs₁
    refine ⟨_, list, style, cs₂.takeWhile (· != '<'), hlist, hstyle, Tag.not_mem_takeWhile cs₂,
      rfl, ?_⟩
    have hx := List.takeWhile_append_dropWhile (p := (· != '<')) (l := cs₂)
    rw [h₃] at hx
    rw [hx, ← List.singleton_append, ← h₂, ← h₁]
  · rintro ⟨items, list, style, x, hlist, hstyle, hx, rfl, rfl⟩
    have hname : Text.dropLiteral? "<char".toList ("<char".toList ++
        (list ++ ('>' :: (x ++ ("</char>".toList ++ rest))))) =
          some (list ++ ('>' :: (x ++ ("</char>".toList ++ rest)))) :=
      Text.dropLiteral?_eq_some_iff.mpr rfl
    have hclose : Text.dropLiteral? ['>'] ('>' :: (x ++ ("</char>".toList ++ rest))) =
        some (x ++ ("</char>".toList ++ rest)) := Text.dropLiteral?_eq_some_iff.mpr rfl
    have hclosing : Text.dropLiteral? "</char>".toList ("</char>".toList ++ rest) = some rest :=
      Text.dropLiteral?_eq_some_iff.mpr rfl
    simp only [readElement?, hname, (hlist.readMany_append (ends_close _)).2, hclose, hstyle,
      Tag.takeWhile_append_of_stop (Tag.ne_of_not_mem hx) (stops_closing rest),
      Tag.dropWhile_append_of_stop (Tag.ne_of_not_mem hx) (stops_closing rest), hclosing,
      Option.bind_eq_bind, Option.bind_some]
    rfl

/-- A text is read up to the next `<`. -/
theorem read?_text {x : List Char} (hne : x ≠ []) (hx : '<' ∉ x) (hrest : Stops (· != '<') rest) :
    read? (x ++ rest) = some (.text x, rest) := by
  have hnone : readElement? (x ++ rest) = none := by
    refine Option.eq_none_iff_forall_ne_some.mpr fun ⟨s, cs⟩ hread => hx ?_
    obtain ⟨items, list, style, y, -, -, -, -, hspelled⟩ := readElement?_eq_some_iff.mp hread
    obtain ⟨c, x, rfl⟩ := List.exists_cons_of_ne_nil hne
    cases (List.cons.inj hspelled).1
    exact List.mem_cons_self
  have hkept : x.isEmpty = false := List.isEmpty_eq_false_iff.mpr hne
  simp only [read?, hnone, Tag.takeWhile_append_of_stop (Tag.ne_of_not_mem hx) hrest,
    Tag.dropWhile_append_of_stop (Tag.ne_of_not_mem hx) hrest, hkept]
  rfl

theorem read?_eq_some (h : read? cs = some (s, rest)) :
    (∃ x, x ≠ [] ∧ '<' ∉ x ∧ s = .text x ∧ cs = x ++ rest) ∨
      readElement? cs = some (s, rest) := by
  rw [read?] at h
  split at h
  · rename_i read hread
    cases h
    exact .inr hread
  · dsimp only at h
    split at h
    · cases h
    · rename_i hne
      cases h
      refine .inl ⟨_, fun hnil => hne (List.isEmpty_iff.mpr hnil), Tag.not_mem_takeWhile cs, rfl, ?_⟩
      exact List.takeWhile_append_dropWhile.symm

theorem length_lt_of_read? (h : read? cs = some (s, rest)) : rest.length < cs.length := by
  rcases read?_eq_some h with ⟨x, hne, -, -, rfl⟩ | h
  · have := List.length_pos_iff.mpr hne
    rw [List.length_append]
    omega
  · obtain ⟨items, list, style, x, -, -, -, -, rfl⟩ := readElement?_eq_some_iff.mp h
    simp only [List.length_append, List.length_cons]
    omega

/-! ## Bodies -/

theorem Body.cons_of_read? (h : read? cs = some (s, rest)) (hbody : Body segments rest) :
    Body (s :: segments) cs := by
  rcases read?_eq_some h with ⟨x, hne, hx, rfl, rfl⟩ | h
  · exact .text hne hx hbody
  · obtain ⟨items, list, style, x, hlist, hstyle, hx, rfl, rfl⟩ := readElement?_eq_some_iff.mp h
    exact .element hlist hstyle hx hbody

theorem readAll?_of_read? (h : read? cs = some (s, rest)) :
    readAll? cs = (readAll? rest).map (s :: ·) := by
  have hlt := length_lt_of_read? h
  have hne : cs.isEmpty = false := by
    rw [List.isEmpty_eq_false_iff]
    rintro rfl
    exact absurd hlt (Nat.not_lt_zero _)
  rw [readAll?, hne, h]
  simp only [hlt, if_true]
  rfl

/-- What is read is spelled as the grammar has it. -/
theorem body_of_readAll? (h : readAll? cs = some segments) : Body segments cs := by
  induction hn : cs.length using Nat.strongRecOn generalizing cs segments with
  | _ n ih =>
    by_cases hne : cs = []
    · subst hne
      rw [readAll?] at h
      cases h
      exact .nil
    · cases hread : read? cs with
      | none =>
        rw [readAll?, List.isEmpty_eq_false_iff.mpr hne, hread] at h
        cases h
      | some r =>
        obtain ⟨s, rest⟩ := r
        rw [readAll?_of_read? hread] at h
        obtain ⟨more, hmore, rfl⟩ := Option.map_eq_some_iff.mp h
        exact .cons_of_read? hread (ih rest.length (hn ▸ length_lt_of_read? hread) hmore rfl)

theorem plainText_cons (s : NoteSegment) (segments : List NoteSegment) :
    plainText (s :: segments) = (if s.isReference then [] else s.content) ++ plainText segments := by
  rw [plainText, plainText, List.filter_cons]
  cases s.isReference <;> rfl

namespace ReadAs

variable {xs ys : List NoteSegment}

theorem cons (s : NoteSegment) (h : ReadAs xs ys) : ReadAs (s :: xs) (s :: ys) where
  references := by rw [List.filter_cons, List.filter_cons, h.references]
  text := by rw [plainText_cons, plainText_cons, h.text]

/-- Two texts are read as one. -/
theorem join (x y : List Char) (h : ReadAs (.text y :: xs) ys) :
    ReadAs (.text (x ++ y) :: xs) (.text x :: ys) where
  references := h.references
  text := by
    have htext : y ++ plainText xs = plainText ys := (plainText_cons (.text y) xs).symm.trans h.text
    rw [plainText_cons, plainText_cons, ← htext, ← List.append_assoc]
    rfl

end ReadAs

/-- **A body of the grammar is read**, and as what it spells. -/
theorem Body.exists_readAll? (h : Body segments cs) :
    ∃ read, readAll? cs = some read ∧ ReadAs read segments := by
  induction h with
  | nil => exact ⟨[], by rw [readAll?]; rfl, rfl, rfl⟩
  | @element items list style x segments cs hlist hstyle hx _ ih =>
    obtain ⟨more, hmore, hsame⟩ := ih
    have helement : readElement? ("<char".toList ++ (list ++ ('>' :: (x ++ ("</char>".toList ++
        cs))))) = some (.element style x, cs) :=
      readElement?_eq_some_iff.mpr ⟨items, list, style, x, hlist, hstyle, hx, rfl, rfl⟩
    refine ⟨.element style x :: more, ?_, hsame.cons _⟩
    rw [readAll?_of_read? (by rw [read?, helement]), hmore]
    rfl
  | @text x segments cs hne hx _ ih =>
    obtain ⟨more, hmore, hsame⟩ := ih
    -- the text is read with the one that follows it, if one does
    have hcs := List.takeWhile_append_dropWhile (p := (· != '<')) (l := cs)
    have hy : '<' ∉ cs.takeWhile (· != '<') := Tag.not_mem_takeWhile cs
    have hrest := Tag.stops_dropWhile (· != '<') cs
    generalize cs.takeWhile (· != '<') = y at hcs hy
    generalize cs.dropWhile (· != '<') = rest at hcs hrest
    subst hcs
    have hxy : readAll? (x ++ (y ++ rest)) = (readAll? rest).map (.text (x ++ y) :: ·) := by
      rw [← List.append_assoc]
      refine readAll?_of_read? (read?_text (by simp [hne]) ?_ hrest)
      simp [hx, hy]
    by_cases hnil : y = []
    · subst hnil
      rw [List.nil_append] at hmore
      rw [hxy, hmore, List.append_nil]
      exact ⟨_, rfl, hsame.cons _⟩
    · rw [readAll?_of_read? (read?_text hnil hy hrest)] at hmore
      obtain ⟨read, hread, rfl⟩ := Option.map_eq_some_iff.mp hmore
      rw [hxy, hread]
      exact ⟨_, rfl, hsame.join x y⟩

end Passage.NoteSegment
