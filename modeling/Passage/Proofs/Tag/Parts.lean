import Mathlib.Data.List.TakeWhile
import Passage.Proofs.Tag.Matches
import Passage.Proofs.Tag.Reading

/-! Tags in parts. Each piece of a pattern takes parts of the text, of which some are captured, and
what it takes is told by the parts and by what follows them (`Piece.exists_takes`,
`Piece.Takes.take?_eq`). Pieces are read one after the other, so a pattern reads exactly the texts
that are spelled by such parts, and the extent of what it reads is theirs
(`readPieces?_eq_some_iff`). -/

namespace Passage.Tag

/-- A stretch of a tag: one that is passed over, or one that is captured. -/
inductive Part
  | plain (text : List Char)
  | captured (text : List Char)

def Part.text : Part → List Char
  | plain cs | captured cs => cs

def spell (parts : List Part) : List Char :=
  parts.flatMap Part.text

/-- Where the captured parts lie, the first part starting at `offset`. -/
def capturesFrom (offset : Nat) : List Part → List Span
  | [] => []
  | .plain cs :: parts => capturesFrom (offset + cs.length) parts
  | .captured cs :: parts =>
    ⟨offset, offset + cs.length⟩ :: capturesFrom (offset + cs.length) parts

/-- The extent of the parts, after `taken` characters. -/
def extentFrom (taken : Nat) (parts : List Part) : Extent :=
  ⟨taken + (spell parts).length, capturesFrom taken parts⟩

def Blanks (cs : List Char) : Prop :=
  ∀ c ∈ cs, Text.isBlank c = true

/-- The text does not start in the class. -/
def Stops (q : Char → Bool) (cs : List Char) : Prop :=
  ∀ c ∈ cs.head?, q c = false

/-- In the text and a closing tag after it, that closing tag is the first one. -/
def EndsFirst (closing cs : List Char) : Prop :=
  ∀ before, before ++ closing <+: cs ++ closing → before = cs

/-- The parts that a piece takes of a text that goes on with `after`. -/
inductive Piece.Takes : Piece → List Part → List Char → Prop
  | literal (l : List Char) {after : List Char} : Takes (.literal l) [.plain l] after
  | blanks {x after : List Char} (hx : Blanks x) (hafter : Stops Text.isBlank after) :
      Takes .blanks [.plain x] after
  | someBlanks {x after : List Char} (hne : x ≠ []) (hx : Blanks x)
      (hafter : Stops Text.isBlank after) : Takes .someBlanks [.plain x] after
  | digits {x after : List Char} (hne : x ≠ []) (hx : ∀ c ∈ x, Text.isDecimalDigit c = true)
      (hafter : Stops Text.isDecimalDigit after) : Takes .digits [.captured x] after
  | upTo {stop : Char} {x after : List Char} (hx : stop ∉ x) (hafter : Stops (· != stop) after) :
      Takes (.upTo stop) [.captured x] after
  | attributes {b : Char} {x after : List Char} (hb : Text.isBlank b = true) (hx : '>' ∉ x)
      (hafter : Stops (· != '>') after) : Takes .attributes [.captured (b :: x)] after
  | content {closing x after : List Char} (hx : EndsFirst closing x) :
      Takes (.content closing) [.captured x, .plain closing] after

/-- The parts that pieces take one after the other, of a text that goes on with `after`. -/
inductive Reads : List Piece → List Part → List Char → Prop
  | nil {after : List Char} : Reads [] [] after
  | cons {p : Piece} {ps : List Piece} {taken parts : List Part} {after : List Char}
      (htaken : p.Takes taken (spell parts ++ after)) (hparts : Reads ps parts after) :
      Reads (p :: ps) (taken ++ parts) after

@[simp] theorem spell_nil : spell [] = [] := rfl

@[simp] theorem spell_plain (cs : List Char) (parts : List Part) :
    spell (.plain cs :: parts) = cs ++ spell parts :=
  List.flatMap_cons

@[simp] theorem spell_captured (cs : List Char) (parts : List Part) :
    spell (.captured cs :: parts) = cs ++ spell parts :=
  List.flatMap_cons

@[simp] theorem spell_append (xs ys : List Part) : spell (xs ++ ys) = spell xs ++ spell ys :=
  List.flatMap_append

theorem capturesFrom_append (offset : Nat) (xs ys : List Part) :
    capturesFrom offset (xs ++ ys) =
      capturesFrom offset xs ++ capturesFrom (offset + (spell xs).length) ys := by
  induction xs generalizing offset with
  | nil => rfl
  | cons x xs ih =>
    cases x with
    | plain cs | captured cs => simp [capturesFrom, ih, Nat.add_assoc]

theorem map_shift_capturesFrom (n offset : Nat) (xs : List Part) :
    (capturesFrom offset xs).map (shift n) = capturesFrom (n + offset) xs := by
  induction xs generalizing offset with
  | nil => rfl
  | cons x xs ih =>
    cases x with
    | plain cs => rw [capturesFrom, capturesFrom, ih, Nat.add_assoc]
    | captured cs =>
      have hspan : shift n ⟨offset, offset + cs.length⟩ = ⟨n + offset, n + offset + cs.length⟩ := by
        rw [shift, Nat.add_comm n, Nat.add_right_comm]
      rw [capturesFrom, capturesFrom, List.map_cons, ih, hspan, Nat.add_assoc]

theorem extentFrom_append (taken : Nat) (xs ys : List Part) :
    extentFrom taken (xs ++ ys) =
      ⟨(extentFrom (taken + (spell xs).length) ys).length,
        (capturesFrom 0 xs).map (shift taken) ++
          (extentFrom (taken + (spell xs).length) ys).groups⟩ := by
  rw [map_shift_capturesFrom, extentFrom, extentFrom, capturesFrom_append, spell_append,
    List.length_append, Nat.add_assoc, Nat.add_zero]

/-! ## Stretches of a class -/

theorem ne_of_not_mem {stop : Char} {cs : List Char} (h : stop ∉ cs) :
    ∀ c ∈ cs, (c != stop) = true := by
  intro c hc
  rw [bne_iff_ne]
  rintro rfl
  exact h hc

theorem not_mem_takeWhile {stop : Char} (cs : List Char) : stop ∉ cs.takeWhile (· != stop) := by
  intro h
  have hne := List.mem_takeWhile_imp h
  rw [bne_self_eq_false] at hne
  cases hne

theorem bne_of_isBlank {c : Char} (h : Text.isBlank c = true) : (c != '>') = true := by
  rw [bne_iff_ne]
  rintro rfl
  cases h

theorem stops_cons {q : Char → Bool} {c : Char} (hc : q c = false) (cs : List Char) :
    Stops q (c :: cs) := by
  rintro _ ⟨⟩
  exact hc

theorem Stops.append {q : Char → Bool} {x y : List Char} (hx : Stops q x) (hy : Stops q y) :
    Stops q (x ++ y) := by
  cases x with
  | nil => exact hy
  | cons c x => exact hx

theorem Stops.of_append {q : Char → Bool} {x y : List Char} (h : Stops q (x ++ y)) : Stops q x := by
  cases x with
  | nil => exact fun _ hc => absurd hc (by simp)
  | cons c x => exact h

theorem stops_dropWhile (q : Char → Bool) (cs : List Char) : Stops q (cs.dropWhile q) := by
  intro c hc
  have h := List.head?_dropWhile_not q cs
  rw [Option.mem_def.mp hc] at h
  exact h

theorem dropWhile_append_of_stops {q : Char → Bool} {x y : List Char} (h : Stops q y) :
    (x ++ y).dropWhile q = x.dropWhile q ++ y := by
  induction x with
  | nil => exact dropWhile_append_of_stop (x := []) (List.forall_mem_nil _) h
  | cons c x ih =>
    rw [List.cons_append, List.dropWhile_cons, List.dropWhile_cons, ih]
    split <;> rfl

/-! ## Closing tags -/

theorem EndsFirst.nil (closing : List Char) : EndsFirst closing [] := by
  intro before h
  have := h.length_le
  rw [List.length_append, List.nil_append] at this
  exact List.eq_nil_of_length_eq_zero (by omega)

/-- A character where the closing tag does not start is passed over. -/
theorem endsFirst_cons_iff {closing cs : List Char} {c : Char}
    (h : ¬ closing <+: c :: (cs ++ closing)) :
    EndsFirst closing (c :: cs) ↔ EndsFirst closing cs := by
  constructor
  · intro hfirst before hbefore
    have := hfirst (c :: before) (by simpa using hbefore)
    exact (List.cons.inj this).2
  · intro hfirst before hbefore
    cases before with
    | nil => exact absurd hbefore h
    | cons d before =>
      obtain ⟨hd, hrest⟩ := List.cons_prefix_cons.mp hbefore
      rw [hd, hfirst before hrest]

theorem EndsFirst.not_prefix {closing cs : List Char} {c : Char} (h : EndsFirst closing (c :: cs)) :
    ¬ closing <+: c :: (cs ++ closing) := by
  intro hprefix
  exact List.cons_ne_nil c cs (h [] hprefix).symm

/-- What follows the closing tag does not matter. -/
theorem isSome_dropLiteral?_iff {l x rest : List Char} :
    (Text.dropLiteral? l (x ++ (l ++ rest))).isSome = true ↔ l <+: x ++ l := by
  rw [Option.isSome_iff_exists, ← List.append_assoc]
  constructor
  · rintro ⟨after, hafter⟩
    have hprefix : l <+: x ++ l ++ rest :=
      ⟨after, (Text.dropLiteral?_eq_some_iff.mp hafter).symm⟩
    exact List.prefix_of_prefix_length_le hprefix (List.prefix_append _ _) (by simp)
  · rintro ⟨after, hafter⟩
    refine ⟨after ++ rest, Text.dropLiteral?_eq_some_iff.mpr ?_⟩
    rw [← hafter, List.append_assoc]

theorem EndsFirst.of_beforeLiteral? {l before rest : List Char}
    (h : Text.beforeLiteral? l (before ++ (l ++ rest)) = some before) : EndsFirst l before := by
  induction before with
  | nil => exact .nil l
  | cons c before ih =>
    rw [List.cons_append, Text.beforeLiteral?] at h
    split at h
    · cases h
    · rename_i hnone
      obtain ⟨b, hb, hcons⟩ := Option.map_eq_some_iff.mp h
      obtain rfl := (List.cons.inj hcons).2
      rw [← List.cons_append, isSome_dropLiteral?_iff] at hnone
      exact (endsFirst_cons_iff hnone).mpr (ih hb)

theorem EndsFirst.beforeLiteral?_eq {l before : List Char} (h : EndsFirst l before)
    (rest : List Char) : Text.beforeLiteral? l (before ++ (l ++ rest)) = some before := by
  induction before with
  | nil =>
    have hsome : (Text.dropLiteral? l (l ++ rest)).isSome = true :=
      (@isSome_dropLiteral?_iff l [] rest).mpr (List.prefix_refl l)
    cases hcs : l ++ rest with
    | nil => simp [Text.beforeLiteral?, (List.append_eq_nil_iff.mp hcs).1]
    | cons c cs =>
      rw [hcs] at hsome
      rw [List.nil_append, Text.beforeLiteral?, if_pos hsome]
  | cons c before ih =>
    have hnone := h.not_prefix
    rw [← List.cons_append, ← @isSome_dropLiteral?_iff l _ rest, List.cons_append] at hnone
    rw [List.cons_append, Text.beforeLiteral?, if_neg hnone,
      ih ((endsFirst_cons_iff h.not_prefix).mp h)]
    rfl

/-- The blanks before a text hold no part of a closing tag. -/
theorem endsFirst_append_iff {closing gap cs : List Char} (hclosing : closing.head? = some '<')
    (hgap : Blanks gap) : EndsFirst closing (gap ++ cs) ↔ EndsFirst closing cs := by
  induction gap with
  | nil => exact Iff.rfl
  | cons c gap ih =>
    obtain ⟨hc, hrest⟩ := List.forall_mem_cons.mp hgap
    rw [List.cons_append, endsFirst_cons_iff, ih hrest]
    intro hprefix
    cases closing with
    | nil => cases hclosing
    | cons d closing =>
      cases hclosing
      rw [← (List.cons_prefix_cons.mp hprefix).1] at hc
      cases hc

/-! ## Pieces -/

/-- A piece that reads a text takes parts of it. -/
theorem Piece.exists_takes {p : Piece} {cs : List Char} {n : Nat} {captured : List Span}
    (h : p.take? cs = some (n, captured)) :
    ∃ parts after, p.Takes parts after ∧ cs = spell parts ++ after ∧
      n = (spell parts).length ∧ captured = capturesFrom 0 parts := by
  cases p with
  | literal l =>
    obtain ⟨after, hl, he⟩ := Option.map_eq_some_iff.mp h
    cases he
    obtain rfl := Text.dropLiteral?_eq_some_iff.mp hl
    exact ⟨_, after, .literal l, by simp, by simp, rfl⟩
  | blanks =>
    cases h
    have hblanks : Blanks (cs.takeWhile Text.isBlank) := fun _ hc => List.mem_takeWhile_imp hc
    exact ⟨_, _, .blanks hblanks (stops_dropWhile _ cs), by simp, by simp, rfl⟩
  | someBlanks =>
    simp only [take?] at h
    split at h
    · cases h
    · rename_i hne
      cases h
      rw [List.length_eq_zero_iff] at hne
      exact ⟨_, _, .someBlanks hne (fun _ hc => List.mem_takeWhile_imp hc) (stops_dropWhile _ cs),
        by simp, by simp, rfl⟩
  | digits =>
    simp only [take?] at h
    split at h
    · cases h
    · rename_i hne
      cases h
      rw [List.length_eq_zero_iff] at hne
      exact ⟨_, _, .digits hne (fun _ hc => List.mem_takeWhile_imp hc) (stops_dropWhile _ cs),
        by simp, by simp, by simp [capturesFrom]⟩
  | upTo stop =>
    cases h
    exact ⟨_, _, .upTo (not_mem_takeWhile cs) (stops_dropWhile _ cs), by simp, by simp,
      by simp [capturesFrom]⟩
  | attributes =>
    cases cs with
    | nil => cases h
    | cons b cs =>
      simp only [take?] at h
      split at h
      · rename_i hb
        have hb : Text.isBlank b = true := hb
        rw [List.takeWhile_cons_of_pos (p := (· != '>')) (bne_of_isBlank hb)] at h
        cases h
        exact ⟨_, _, .attributes hb (not_mem_takeWhile cs) (stops_dropWhile _ cs), by simp,
          by simp, by simp [capturesFrom]⟩
      · cases h
  | content closing =>
    obtain ⟨before, hbefore, he⟩ := Option.map_eq_some_iff.mp h
    cases he
    obtain ⟨after, hcs⟩ := Text.beforeLiteral?_eq_some hbefore
    rw [List.append_assoc] at hcs
    subst hcs
    exact ⟨_, after, .content (.of_beforeLiteral? hbefore), by simp, by simp,
      by simp [capturesFrom]⟩

/-- A piece reads the parts that it takes, and leaves what follows them. -/
theorem Piece.Takes.take?_eq {p : Piece} {parts : List Part} {after : List Char}
    (h : p.Takes parts after) :
    p.take? (spell parts ++ after) = some ((spell parts).length, capturesFrom 0 parts) := by
  cases h with
  | literal l =>
    have hl : Text.dropLiteral? l (l ++ after) = some after :=
      Text.dropLiteral?_eq_some_iff.mpr rfl
    simp [Piece.take?, hl, capturesFrom]
  | blanks hx hafter =>
    simp [Piece.take?, takeWhile_append_of_stop hx hafter, capturesFrom]
  | someBlanks hne hx hafter =>
    simp [Piece.take?, takeWhile_append_of_stop hx hafter, capturesFrom, hne]
  | digits hne hx hafter =>
    simp [Piece.take?, takeWhile_append_of_stop hx hafter, capturesFrom, hne]
  | upTo hx hafter =>
    simp [Piece.take?, takeWhile_append_of_stop (ne_of_not_mem hx) hafter, capturesFrom]
  | @attributes b x _ hb hx hafter =>
    simp [Piece.take?, takeWhile_append_of_stop (ne_of_not_mem hx) hafter, capturesFrom, hb,
      bne_of_isBlank hb]
  | @content closing x _ hfirst =>
    simp [Piece.take?, hfirst.beforeLiteral?_eq after, capturesFrom]

/-- **What pieces read** is spelled by the parts that they take. -/
theorem readPieces?_eq_some_iff {taken : Nat} {ps : List Piece} {cs : List Char} {e : Extent} :
    readPieces? taken ps cs = some e ↔
      ∃ parts after, Reads ps parts after ∧ cs = spell parts ++ after ∧
        e = extentFrom taken parts := by
  induction ps generalizing taken cs e with
  | nil =>
    constructor
    · intro h
      cases h
      exact ⟨[], cs, .nil, rfl, rfl⟩
    · rintro ⟨parts, after, h, rfl, rfl⟩
      cases h
      rfl
  | cons p ps ih =>
    rw [readPieces?_cons_eq_some_iff]
    constructor
    · rintro ⟨n, captured, rest, hp, hrest, rfl⟩
      obtain ⟨xs, tail, hxs, rfl, rfl, rfl⟩ := p.exists_takes hp
      rw [List.drop_left] at hrest
      obtain ⟨parts, after, hparts, rfl, rfl⟩ := ih.mp hrest
      exact ⟨_, after, .cons hxs hparts, by simp, (extentFrom_append taken xs parts).symm⟩
    · rintro ⟨_, after, hreads, rfl, rfl⟩
      cases hreads with
      | @cons _ _ xs parts _ hxs hparts =>
        rw [spell_append, List.append_assoc]
        refine ⟨_, _, _, hxs.take?_eq, ?_, extentFrom_append taken xs parts⟩
        rw [List.drop_left]
        exact ih.mpr ⟨parts, after, hparts, rfl, rfl⟩

end Passage.Tag
