import Mathlib.Data.List.DropRight
import Mathlib.Data.Option.Basic
import Passage.Note.Attributes
import Passage.Proofs.Tag.Parts

/-! The grammar of attribute lists. A list is spelled by its items, one after the other, and white
space around an item is part of it. The space between two items may be counted to either, so a text
can be spelled in more than one way; but the items are the same, and they are what is read
(`readAll?_eq_some_iff`). -/

namespace Passage.NoteAttribute

open Tag (Stops stops_cons dropWhile_append_of_stop)

/-- All characters are white space. -/
def White (cs : List Char) : Prop :=
  ∀ c ∈ cs, Text.isWhite c = true

/-- `key="value"`, with white space around it. -/
inductive Spells (a : NoteAttribute) : List Char → Prop
  | mk {before after : List Char} (hbefore : White before) (hne : a.key ≠ [])
      (hkey : ∀ c ∈ a.key, isKeyChar c = true) (hvalue : '"' ∉ a.value) (hafter : White after) :
      Spells a (before ++ (a.key ++ ("=\"".toList ++ (a.value ++ ('"' :: after)))))

inductive Items : List NoteAttribute → List Char → Prop
  | nil : Items [] []
  | cons {a : NoteAttribute} {items : List NoteAttribute} {x cs : List Char} (ha : a.Spells x)
      (h : Items items cs) : Items (a :: items) (x ++ cs)

variable {a : NoteAttribute} {items : List NoteAttribute} {cs rest : List Char}

/-! ## One item -/

theorem toNat_of_isKeyChar {c : Char} (h : isKeyChar c = true) : 45 ≤ c.toNat ∧ c.toNat ≤ 122 := by
  change (((decide (c.val ≥ 'A'.val ∧ c.val ≤ 'Z'.val) ||
    decide (c.val ≥ 'a'.val) && decide (c.val ≤ 'z'.val)) ||
    decide (c.val ≥ '0'.val) && decide (c.val ≤ '9'.val)) || c == '-' || c == '_') = true at h
  simp only [Bool.or_eq_true, Bool.and_eq_true, decide_eq_true_eq, beq_iff_eq, ge_iff_le,
    UInt32.le_iff_toNat_le] at h
  change ((((65 ≤ c.toNat ∧ c.toNat ≤ 90) ∨ (97 ≤ c.toNat ∧ c.toNat ≤ 122)) ∨
    (48 ≤ c.toNat ∧ c.toNat ≤ 57)) ∨ c = '-') ∨ c = '_' at h
  rcases h with (h | rfl) | rfl
  · omega
  · decide
  · decide

theorem isWhite_of_isKeyChar {c : Char} (h : isKeyChar c = true) : Text.isWhite c = false := by
  rw [Bool.eq_false_iff]
  intro hw
  have hkey := toNat_of_isKeyChar h
  have hwhite := Text.toNat_of_isWhite hw
  omega

/-- Reading skips the white space before an item. -/
theorem read?_dropWhile (cs : List Char) : read? (cs.dropWhile Text.isWhite) = read? cs := by
  rw [read?, read?, List.dropWhile_idempotent]

/-- **What is read** is an item and the white space around it. -/
theorem read?_eq_some_iff :
    read? cs = some (a, rest) ↔ ∃ x, a.Spells x ∧ cs = x ++ rest ∧ Stops Text.isWhite rest := by
  constructor
  · intro h
    simp only [read?, bind, Option.bind_eq_some_iff, pure, Option.some.injEq, Prod.mk.injEq,
      Text.dropLiteral?_eq_some_iff, guard] at h
    obtain ⟨⟨⟩, hguard, cs₁, h₁, cs₂, h₂, rfl, rfl⟩ := h
    have hne : (cs.dropWhile Text.isWhite).takeWhile isKeyChar ≠ [] := by
      rintro hnil
      rw [hnil] at hguard
      cases hguard
    have hcs := List.takeWhile_append_dropWhile (p := Text.isWhite) (l := cs)
    have hkey := List.takeWhile_append_dropWhile (p := isKeyChar) (l := cs.dropWhile Text.isWhite)
    have hvalue := List.takeWhile_append_dropWhile (p := (· != '"')) (l := cs₁)
    have hafter := List.takeWhile_append_dropWhile (p := Text.isWhite) (l := cs₂)
    have hwhite (cs : List Char) : White (cs.takeWhile Text.isWhite) :=
      fun _ hc => List.mem_takeWhile_imp hc
    refine ⟨_, .mk (hwhite cs) hne (fun _ hc => List.mem_takeWhile_imp hc)
      (Tag.not_mem_takeWhile cs₁) (hwhite cs₂), ?_, Tag.stops_dropWhile _ cs₂⟩
    rw [h₁] at hkey
    rw [h₂] at hvalue
    simp only [List.append_assoc, List.cons_append, hafter]
    simp only [List.singleton_append] at hvalue
    rw [hvalue, hkey, hcs]
  · rintro ⟨_, @⟨before, after, hbefore, hne, hkey, hvalue, hafter⟩, rfl, hrest⟩
    have hquoted : Stops (· != '"') ('"' :: (after ++ rest)) := stops_cons rfl _
    have hequals : Stops isKeyChar ("=\"".toList ++ (a.value ++ ('"' :: (after ++ rest)))) :=
      stops_cons rfl _
    have hitem : Stops Text.isWhite
        (a.key ++ ("=\"".toList ++ (a.value ++ ('"' :: (after ++ rest))))) := by
      intro c hc
      refine isWhite_of_isKeyChar (hkey c (List.mem_of_mem_head? ?_))
      rwa [List.head?_append_of_ne_nil _ hne] at hc
    have hequal : Text.dropLiteral? "=\"".toList
        ("=\"".toList ++ (a.value ++ ('"' :: (after ++ rest)))) =
          some (a.value ++ ('"' :: (after ++ rest))) := Text.dropLiteral?_eq_some_iff.mpr rfl
    have hquote : Text.dropLiteral? ['"'] ('"' :: (after ++ rest)) = some (after ++ rest) :=
      Text.dropLiteral?_eq_some_iff.mpr rfl
    have hkept : a.key.isEmpty = false := List.isEmpty_eq_false_iff.mpr hne
    simp only [List.append_assoc, List.cons_append, read?, dropWhile_append_of_stop hbefore hitem,
      Tag.takeWhile_append_of_stop hkey hequals, dropWhile_append_of_stop hkey hequals, hequal,
      Tag.takeWhile_append_of_stop (Tag.ne_of_not_mem hvalue) hquoted,
      dropWhile_append_of_stop (Tag.ne_of_not_mem hvalue) hquoted, hquote,
      dropWhile_append_of_stop hafter hrest, hkept, Bool.not_false, guard_true, Option.bind_eq_bind,
      Option.bind_some]
    rfl

/-! ## Lists -/

theorem Spells.length_pos {x : List Char} (h : a.Spells x) : 0 < x.length := by
  cases h
  simp only [List.length_append, List.length_cons]
  omega

theorem length_lt_of_read? (h : read? cs = some (a, rest)) : rest.length < cs.length := by
  obtain ⟨x, hx, rfl, -⟩ := read?_eq_some_iff.mp h
  have := hx.length_pos
  rw [List.length_append]
  omega

theorem readMany_of_read? (h : read? cs = some (a, rest)) :
    readMany cs = (a :: (readMany rest).1, (readMany rest).2) := by
  rw [readMany, h]
  simp only [length_lt_of_read? h, if_true]

theorem readMany_of_none (h : read? cs = none) : readMany cs = ([], cs) := by
  rw [readMany, h]

/-- What is read is spelled by items. -/
theorem items_readMany (cs : List Char) :
    ∃ x, Items (readMany cs).1 x ∧ cs = x ++ (readMany cs).2 := by
  induction hn : cs.length using Nat.strongRecOn generalizing cs with
  | _ n ih =>
    cases h : read? cs with
    | none =>
      rw [readMany_of_none h]
      exact ⟨[], .nil, rfl⟩
    | some r =>
      obtain ⟨a, rest⟩ := r
      obtain ⟨x, hx, hcs, -⟩ := read?_eq_some_iff.mp h
      obtain ⟨y, hy, hrest⟩ := ih rest.length (hn ▸ length_lt_of_read? h) rest rfl
      rw [readMany_of_read? h]
      refine ⟨x ++ y, .cons hx hy, ?_⟩
      rw [List.append_assoc, ← hrest, hcs]

/-- An item takes the white space after it. -/
theorem Spells.append {x y : List Char} (h : a.Spells x) (hy : White y) : a.Spells (x ++ y) := by
  cases h with
  | @mk before after hbefore hne hkey hvalue hafter =>
    have hafter : White (after ++ y) := List.forall_mem_append.mpr ⟨hafter, hy⟩
    simp only [List.append_assoc, List.cons_append]
    exact .mk hbefore hne hkey hvalue hafter

theorem Spells.read?_append {x : List Char} (h : a.Spells x) (y : List Char) :
    read? (x ++ y) = some (a, y.dropWhile Text.isWhite) := by
  refine read?_eq_some_iff.mpr ⟨x ++ y.takeWhile Text.isWhite, h.append ?_, ?_, ?_⟩
  · exact fun _ hc => List.mem_takeWhile_imp hc
  · rw [List.append_assoc, List.takeWhile_append_dropWhile]
  · exact Tag.stops_dropWhile Text.isWhite y

/-- A text after items: no white space comes first, and no item. -/
structure Ends (rest : List Char) : Prop where
  stops : Stops Text.isWhite rest
  none : read? rest = none

/-- **Items are read** up to a text that ends them. White space before them is skipped, so it does
not matter which of two items the space between them is counted to. -/
theorem Items.readMany_append (h : Items items cs) (hrest : Ends rest) :
    readMany ((cs ++ rest).dropWhile Text.isWhite) = (items, rest) ∧
      readMany (cs ++ rest) = (items, rest) := by
  induction h with
  | nil =>
    have hskip : rest.dropWhile Text.isWhite = rest :=
      dropWhile_append_of_stop (x := []) (by simp) hrest.stops
    rw [List.nil_append, hskip]
    exact ⟨readMany_of_none hrest.none, readMany_of_none hrest.none⟩
  | @cons a items x cs ha _ ih =>
    have hread := ha.read?_append (cs ++ rest)
    rw [← List.append_assoc] at hread
    rw [readMany_of_read? hread, readMany_of_read? ((read?_dropWhile _).trans hread), ih.1]
    exact ⟨rfl, rfl⟩

theorem ends_nil : Ends [] where
  stops := by simp [Stops]
  none := rfl

/-- **An attribute list is read exactly where it is spelled by its items.** -/
theorem readAll?_eq_some_iff : readAll? cs = some items ↔ Items items cs := by
  constructor
  · intro h
    obtain ⟨x, hx, hcs⟩ := items_readMany cs
    rw [readAll?] at h
    split at h
    · rename_i read hread
      cases h
      rw [hread, List.append_nil] at hcs
      rw [hread] at hx
      exact hcs ▸ hx
    · cases h
  · intro h
    have hread := (h.readMany_append ends_nil).2
    rw [List.append_nil] at hread
    rw [readAll?, hread]

end Passage.NoteAttribute
