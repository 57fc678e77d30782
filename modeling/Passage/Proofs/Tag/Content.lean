import Mathlib.Algebra.Ring.Nat
import Mathlib.Data.List.TakeWhile
import Passage.Proofs.Tag.Matches

/-! Parts of a tag that has been read. Reading one list of pieces after another is reading both
(`readPieces?_append`). So a tag starts with its first literal and ends with its last, and the
content of a block stands between a `>` with the blanks after it and the closing tag
(`readPieces?_content`). -/

namespace Passage.Tag

theorem readPieces?_append {taken : Nat} {ps qs : List Piece} {cs : List Char} {e : Extent} :
    readPieces? taken (ps ++ qs) cs = some e ↔
      ∃ e₁ e₂, readPieces? taken ps cs = some e₁ ∧
        readPieces? e₁.length qs (cs.drop (e₁.length - taken)) = some e₂ ∧
        e = ⟨e₂.length, e₁.groups ++ e₂.groups⟩ := by
  induction ps generalizing taken cs e with
  | nil =>
    constructor
    · intro h
      exact ⟨⟨taken, []⟩, e, rfl, by simpa using h, rfl⟩
    · rintro ⟨e₁, e₂, h₁, h₂, rfl⟩
      cases h₁
      simpa using h₂
  | cons p ps ih =>
    rw [List.cons_append, readPieces?_cons_eq_some_iff]
    constructor
    · rintro ⟨n, captured, e', hp, h, rfl⟩
      obtain ⟨e₁, e₂, h₁, h₂, rfl⟩ := ih.mp h
      have hle := (readPieces?_within h₁).taken_le
      refine ⟨_, e₂, readPieces?_cons_eq_some_iff.mpr ⟨n, captured, e₁, hp, h₁, rfl⟩, ?_, ?_⟩
      · rw [List.drop_drop] at h₂
        rwa [show e₁.length - taken = n + (e₁.length - (taken + n)) by omega]
      · simp
    · rintro ⟨e', e₂, h, h₂, rfl⟩
      obtain ⟨n, captured, e₁, hp, h₁, rfl⟩ := readPieces?_cons_eq_some_iff.mp h
      have hle := (readPieces?_within h₁).taken_le
      refine ⟨n, captured, _, hp, ih.mpr ⟨e₁, e₂, h₁, ?_, rfl⟩, by simp⟩
      rw [List.drop_drop]
      rwa [show n + (e₁.length - (taken + n)) = e₁.length - taken by omega]

def Piece.captures : Piece → Nat
  | literal _ | blanks | someBlanks => 0
  | digits | upTo _ | attributes | content _ => 1

theorem Piece.length_captured {p : Piece} {cs : List Char} {n : Nat} {captured : List Span}
    (h : p.take? cs = some (n, captured)) : captured.length = p.captures := by
  cases p with
  | literal l =>
    obtain ⟨_, -, he⟩ := Option.map_eq_some_iff.mp h
    cases he
    rfl
  | content closing =>
    obtain ⟨_, -, he⟩ := Option.map_eq_some_iff.mp h
    cases he
    rfl
  | blanks | upTo =>
    cases h
    rfl
  | someBlanks | digits | attributes =>
    simp only [take?] at h
    split at h <;> cases h
    rfl

theorem length_groups {taken : Nat} {ps : List Piece} {cs : List Char} {e : Extent}
    (h : readPieces? taken ps cs = some e) : e.groups.length = (ps.map Piece.captures).sum := by
  induction ps generalizing taken cs e with
  | nil =>
    cases h
    rfl
  | cons p ps ih =>
    obtain ⟨n, captured, rest, hp, hr, rfl⟩ := readPieces?_cons_eq_some_iff.mp h
    simp only [List.length_append, List.length_map, Piece.length_captured hp, ih hr,
      List.map_cons, List.sum_cons]

/-- A tag starts with its first literal. -/
theorem literal_isPrefix {l : List Char} {ps : List Piece} {cs : List Char} {e : Extent}
    (h : readPieces? 0 (.literal l :: ps) cs = some e) : l <+: cs.take e.length := by
  obtain ⟨n, captured, rest, hp, hr, rfl⟩ := readPieces?_cons_eq_some_iff.mp h
  obtain ⟨after, hl, he⟩ := Option.map_eq_some_iff.mp hp
  obtain rfl := Text.dropLiteral?_eq_some_iff.mp hl
  cases he
  have hle : l.length ≤ rest.length := by simpa using (readPieces?_within hr).taken_le
  rw [List.prefix_take_iff]
  exact ⟨List.prefix_append l after, hle⟩

/-- The pieces that end a tag end what is read. -/
theorem closing_isSuffix {closing : List Char} {p : Piece}
    (hp : p = .literal closing ∨ p = .content closing) {ps : List Piece} {cs : List Char}
    {e : Extent} (h : readPieces? 0 (ps ++ [p]) cs = some e) : closing <:+ cs.take e.length := by
  obtain ⟨e₁, e₂, h₁, h₂, rfl⟩ := readPieces?_append.mp h
  obtain ⟨n, captured, rest, ht, hr, rfl⟩ := readPieces?_cons_eq_some_iff.mp h₂
  cases hr
  have hclosing : closing <:+ (cs.drop e₁.length).take n := by
    rcases hp with rfl | rfl
    · obtain ⟨after, hl, he⟩ := Option.map_eq_some_iff.mp ht
      cases he
      rw [Nat.sub_zero] at hl
      have htake : (cs.drop e₁.length).take closing.length = closing := by
        rw [Text.dropLiteral?_eq_some_iff.mp hl, List.take_left]
      exact ⟨[], htake.symm⟩
    · obtain ⟨before, hb, he⟩ := Option.map_eq_some_iff.mp ht
      obtain ⟨after, ha⟩ := Text.beforeLiteral?_eq_some hb
      cases he
      rw [Nat.sub_zero] at ha
      rw [ha, ← List.length_append, List.take_left]
      exact List.suffix_append before closing
  rw [List.take_add]
  exact hclosing.trans (List.suffix_append _ _)

/-- The content of a block and what stands around it. -/
theorem readPieces?_content {closing : List Char} {ps : List Piece} {cs : List Char} {e : Extent}
    (h : readPieces? 0 (ps ++ [.literal ['>'], .blanks, .content closing]) cs = some e) :
    ∃ before after body, cs.take e.length = before ++ '>' :: after ++ body ++ closing ∧
      (∃ e₁, readPieces? 0 ps cs = some e₁ ∧ before = cs.take e₁.length) ∧
      (∀ c ∈ after, Text.isBlank c = true) ∧
      e.groups[(ps.map Piece.captures).sum]? =
        some ⟨(before ++ '>' :: after).length, (before ++ '>' :: after ++ body).length⟩ := by
  obtain ⟨e₁, e₂, h₁, h₂, rfl⟩ := readPieces?_append.mp h
  obtain ⟨_, _, e₃, hp, h₃, rfl⟩ := readPieces?_cons_eq_some_iff.mp h₂
  obtain ⟨cs₁, hl, he⟩ := Option.map_eq_some_iff.mp hp
  cases he
  obtain ⟨_, _, e₄, hb, h₄, rfl⟩ := readPieces?_cons_eq_some_iff.mp h₃
  cases hb
  obtain ⟨_, _, e₅, hc, h₅, rfl⟩ := readPieces?_cons_eq_some_iff.mp h₄
  cases h₅
  obtain ⟨body, hbody, he⟩ := Option.map_eq_some_iff.mp hc
  cases he
  clear h h₂ h₃ h₄ hp hc
  rw [Nat.sub_zero] at *
  have hgt := Text.dropLiteral?_eq_some_iff.mp hl
  obtain ⟨rest, hrest⟩ := Text.beforeLiteral?_eq_some hbody
  have hafter : (cs.drop e₁.length).drop ['>'].length = cs₁ := by rw [hgt]; rfl
  rw [hafter] at hrest ⊢
  have hcs₁ : cs₁.takeWhile Text.isBlank ++ (body ++ closing ++ rest) = cs₁ := by
    rw [← hrest]
    exact List.prefix_iff_eq_append.mp (List.takeWhile_prefix _)
  have hblank : ∀ c ∈ cs₁.takeWhile Text.isBlank, Text.isBlank c = true :=
    fun c hc => List.mem_takeWhile_imp hc
  generalize cs₁.takeWhile Text.isBlank = after at *
  have hlen : (cs.take e₁.length).length = e₁.length :=
    List.length_take_of_le (by simpa using (readPieces?_within h₁).le_length)
  have hcs : cs = cs.take e₁.length ++ '>' :: after ++ body ++ closing ++ rest := by
    calc
      cs = cs.take e₁.length ++ cs.drop e₁.length := (List.take_append_drop ..).symm
      _ = cs.take e₁.length ++ '>' :: after ++ body ++ closing ++ rest := by
        rw [hgt, ← hcs₁]
        simp
  refine ⟨cs.take e₁.length, after, body, ?_, ⟨e₁, h₁, rfl⟩, hblank, ?_⟩
  · generalize cs.take e₁.length = before at hcs hlen ⊢
    subst hcs
    refine List.take_left' ?_
    simp only [List.length_append, List.length_cons, hlen, List.length_nil]
    omega
  · rw [← length_groups h₁]
    simp only [List.map_cons, List.map_nil, shift, List.cons_append, List.nil_append,
      List.getElem?_concat_length, List.length_append, List.length_cons, List.length_nil, hlen,
      Option.some.injEq, Span.mk.injEq]
    omega

end Passage.Tag
