import Passage.Tag.Scan

/-! Where matches lie. Each match of a scan is what its pattern reads at that place, it lies
inside the text, and it starts where the one before has ended or later (`Following`). What is
read lies inside the text and so do its captured parts, whatever the pieces of the tag. -/

namespace Passage.Tag

/-- Every match starts at `offset` or later, and not before the end of the one before it. -/
def Following (offset : Nat) : List Match → Prop
  | [] => True
  | m :: ms => offset ≤ m.start ∧ Following m.span.stop ms

theorem Following.of_le {a b : Nat} {ms : List Match} (hab : a ≤ b) (h : Following b ms) :
    Following a ms := by
  cases ms with
  | nil => trivial
  | cons m ms => exact ⟨Nat.le_trans hab h.1, h.2⟩

theorem Following.le_start {a : Nat} {ms : List Match} (h : Following a ms) :
    ∀ m ∈ ms, a ≤ m.start := by
  induction ms generalizing a with
  | nil => exact fun m hm => absurd hm List.not_mem_nil
  | cons m ms ih =>
    obtain ⟨hle, hms⟩ := h
    have hspan : m.start ≤ m.span.stop := Nat.le_add_right _ _
    exact List.forall_mem_cons.mpr ⟨hle, ih (hms.of_le (Nat.le_trans hle hspan))⟩

namespace Pattern

theorem following_matchesFrom (p : Pattern) (offset skip : Nat) (cs : List Char) :
    Following (offset + skip) (p.matchesFrom offset skip cs) := by
  induction cs generalizing offset skip with
  | nil => trivial
  | cons c cs ih =>
    cases skip with
    | succ skip =>
      have h := ih (offset + 1) skip
      rw [Nat.add_assoc, Nat.add_comm 1] at h
      exact h
    | zero =>
      cases hm : p.match? (offset == 0) (c :: cs) with
      | none =>
        simp only [matchesFrom, hm]
        exact (ih (offset + 1) 0).of_le (by omega)
      | some e =>
        simp only [matchesFrom, hm]
        refine ⟨Nat.le_refl _, (ih (offset + 1) (e.length - 1)).of_le ?_⟩
        simp only [Match.span]
        omega

theorem following_matches (p : Pattern) (cs : List Char) : Following 0 (p.matches cs) :=
  p.following_matchesFrom 0 0 cs

private theorem mem_matchesFrom {p : Pattern} {offset skip : Nat} {cs : List Char} {m : Match}
    (h : m ∈ p.matchesFrom offset skip cs) :
    ∃ i, m.start = offset + i ∧ i < cs.length ∧
      p.match? (m.start == 0) (cs.drop i) = some m.extent := by
  induction cs generalizing offset skip with
  | nil => simp [matchesFrom] at h
  | cons c cs ih =>
    have further {skip : Nat} (h : m ∈ p.matchesFrom (offset + 1) skip cs) :
        ∃ i, m.start = offset + i ∧ i < (c :: cs).length ∧
          p.match? (m.start == 0) ((c :: cs).drop i) = some m.extent := by
      obtain ⟨i, hi, hlt, hm⟩ := ih h
      exact ⟨i + 1, by omega, by simpa using hlt, by simpa using hm⟩
    cases skip with
    | succ skip => exact further h
    | zero =>
      cases hm : p.match? (offset == 0) (c :: cs) with
      | none =>
        simp only [matchesFrom, hm] at h
        exact further h
      | some e =>
        simp only [matchesFrom, hm] at h
        rcases List.mem_cons.mp h with rfl | h
        · exact ⟨0, rfl, by simp, hm⟩
        · exact further h

/-- A match is what the pattern reads where it starts. -/
theorem match?_of_mem_matches {p : Pattern} {cs : List Char} {m : Match}
    (h : m ∈ p.matches cs) :
    m.start < cs.length ∧ p.match? (m.start == 0) (cs.drop m.start) = some m.extent := by
  obtain ⟨i, hi, hlt, hm⟩ := mem_matchesFrom h
  obtain rfl : m.start = i := by omega
  exact ⟨hlt, hm⟩

end Pattern

/-! ## What is read -/

/-- An extent lies in the first `n` characters from `taken` on, and its parts inside it. -/
structure Extent.Within (taken n : Nat) (e : Extent) : Prop where
  taken_le : taken ≤ e.length
  le_length : e.length ≤ taken + n
  groups : ∀ g ∈ e.groups, taken ≤ g.start ∧ g.start ≤ g.stop ∧ g.stop ≤ e.length

theorem Piece.take?_within {p : Piece} {cs : List Char} {n : Nat} {captured : List Span}
    (h : p.take? cs = some (n, captured)) : Extent.Within 0 cs.length ⟨n, captured⟩ := by
  have le (q : Char → Bool) : (cs.takeWhile q).length ≤ cs.length :=
    (List.takeWhile_sublist q).length_le
  cases p with
  | literal l =>
    obtain ⟨rest, hl, he⟩ := Option.map_eq_some_iff.mp h
    obtain rfl := Text.dropLiteral?_eq_some_iff.mp hl
    cases he
    exact ⟨Nat.zero_le _, by simp, by simp⟩
  | blanks =>
    cases h
    exact ⟨Nat.zero_le _, by simpa using le _, by simp⟩
  | someBlanks =>
    simp only [take?] at h
    split at h <;> cases h
    exact ⟨Nat.zero_le _, by simpa using le _, by simp⟩
  | digits =>
    simp only [take?] at h
    split at h <;> cases h
    exact ⟨Nat.zero_le _, by simpa using le _, by simp⟩
  | upTo stop =>
    cases h
    exact ⟨Nat.zero_le _, by simpa using le _, by simp⟩
  | attributes =>
    simp only [take?] at h
    split at h <;> cases h
    exact ⟨Nat.zero_le _, by simpa using le _, by simp⟩
  | content closing =>
    obtain ⟨before, hb, he⟩ := Option.map_eq_some_iff.mp h
    obtain ⟨rest, rfl⟩ := Text.beforeLiteral?_eq_some hb
    cases he
    exact ⟨Nat.zero_le _, by simp, by simp⟩

theorem readPieces?_cons_eq_some_iff {taken : Nat} {p : Piece} {ps : List Piece}
    {cs : List Char} {e : Extent} :
    readPieces? taken (p :: ps) cs = some e ↔
      ∃ n captured rest, p.take? cs = some (n, captured) ∧
        readPieces? (taken + n) ps (cs.drop n) = some rest ∧
        e = ⟨rest.length, captured.map (shift taken) ++ rest.groups⟩ := by
  simp only [readPieces?, Option.bind_eq_bind, Option.bind_eq_some_iff, Option.pure_def,
    Option.some.injEq, Prod.exists]
  constructor
  · rintro ⟨n, captured, h, rest, hr, rfl⟩
    exact ⟨n, captured, rest, h, hr, rfl⟩
  · rintro ⟨n, captured, rest, h, hr, rfl⟩
    exact ⟨n, captured, h, rest, hr, rfl⟩

theorem readPieces?_within {taken : Nat} {ps : List Piece} {cs : List Char} {e : Extent}
    (h : readPieces? taken ps cs = some e) : e.Within taken cs.length := by
  induction ps generalizing taken cs e with
  | nil =>
    cases h
    exact ⟨Nat.le_refl _, Nat.le_add_right _ _, by simp⟩
  | cons p ps ih =>
    obtain ⟨n, captured, rest, hp, hr, rfl⟩ := readPieces?_cons_eq_some_iff.mp h
    obtain ⟨-, hn, hc⟩ := Piece.take?_within hp
    obtain ⟨h1, h2, h3⟩ := ih hr
    simp only [List.length_drop, Nat.zero_add] at h2 hn
    refine ⟨by simp only; omega, by simp only; omega, ?_⟩
    intro g hg
    rcases List.mem_append.mp hg with hg | hg
    · obtain ⟨s, hs, rfl⟩ := List.mem_map.mp hg
      have := hc s hs
      simp only [shift] at this ⊢
      omega
    · have := h3 g hg
      simp only at this ⊢
      omega

/-- What a pattern reads lies in the text, and its captured parts lie inside it. -/
theorem Pattern.match?_within {p : Pattern} {atStart : Bool} {cs : List Char} {e : Extent}
    (h : p.match? atStart cs = some e) : e.Within 0 cs.length := by
  have le (q : Char → Bool) : (cs.takeWhile q).length ≤ cs.length :=
    (List.takeWhile_sublist q).length_le
  cases p with
  | tag pieces => exact readPieces?_within h
  | blankEdges | lineBreaks | blanks =>
    simp only [match?] at h
    split at h <;> cases h
    exact ⟨Nat.zero_le _, by simpa using le _, by simp⟩

/-- A match ends inside the text. -/
theorem Pattern.stop_le_of_mem_matches {p : Pattern} {cs : List Char} {m : Match}
    (h : m ∈ p.matches cs) : m.span.stop ≤ cs.length := by
  obtain ⟨hlt, hm⟩ := match?_of_mem_matches h
  have := (match?_within hm).le_length
  simp only [List.length_drop] at this
  simp only [Match.span]
  omega

end Passage.Tag
