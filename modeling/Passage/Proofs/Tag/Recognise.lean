import Passage.Proofs.Tag.Grammar

/-! The reference scan. From a position it takes the first place at which a tag of the family
stands, and goes on from the end of that tag; a place where none stands is passed over, inside a
broken tag as anywhere. The matches of a pattern are those of the reference scan
(`matches_eq_iff_scans`). -/

namespace Passage.Tag

namespace Family

/-- A tag of the family stands at position `s` of a text and takes `e`. -/
def ReadsAt (f : Family) (text : List Char) (s : Nat) (e : Extent) : Prop :=
  ∃ front parts after, text = front ++ (spell parts ++ after) ∧ front.length = s ∧
    f.Spells (s == 0) parts after ∧ e = extentFrom 0 parts

/-- The matches that the reference scan finds from position `p` on. -/
inductive Scans (f : Family) (text : List Char) : Nat → List Match → Prop
  | done {p : Nat} (hnone : ∀ s e, p ≤ s → ¬ f.ReadsAt text s e) : Scans f text p []
  | next {p : Nat} {m : Match} {ms : List Match} (hle : p ≤ m.start)
      (hreads : f.ReadsAt text m.start m.extent)
      (hleast : ∀ s e, p ≤ s → s < m.start → ¬ f.ReadsAt text s e)
      (hrest : Scans f text m.span.stop ms) : Scans f text p (m :: ms)

variable {f : Family} {text : List Char}

theorem readsAt_length_iff {front cs : List Char} {e : Extent} :
    f.ReadsAt (front ++ cs) front.length e ↔
      f.pattern.match? (front.length == 0) cs = some e := by
  rw [match?_eq_some_iff]
  constructor
  · rintro ⟨front', parts, after, htext, hlen, h, rfl⟩
    obtain ⟨rfl, rfl⟩ := List.append_inj htext hlen.symm
    exact ⟨parts, after, h, rfl, rfl⟩
  · rintro ⟨parts, after, h, rfl, rfl⟩
    exact ⟨front, parts, after, rfl, rfl, h, rfl⟩

/-- At a position one tag can be read at most. -/
theorem ReadsAt.unique {s : Nat} {e e' : Extent} (h : f.ReadsAt text s e)
    (h' : f.ReadsAt text s e') : e = e' := by
  obtain ⟨front, parts, after, rfl, rfl, -⟩ := id h
  rw [readsAt_length_iff] at h h'
  exact Option.some.inj (h.symm.trans h')

/-- A tag takes a character at least, and lies in the text. -/
theorem ReadsAt.bounds {s : Nat} {e : Extent} (h : f.ReadsAt text s e) :
    0 < e.length ∧ s + e.length ≤ text.length := by
  obtain ⟨front, parts, after, rfl, rfl, hspells, rfl⟩ := h
  have := List.length_pos_iff.mpr hspells.spell_ne_nil
  simp only [extentFrom, List.length_append]
  omega

/-- A position where nothing can be read is passed over. -/
theorem Scans.of_succ {p : Nat} {ms : List Match} (h : f.Scans text (p + 1) ms)
    (hnone : ∀ e, ¬ f.ReadsAt text p e) : f.Scans text p ms := by
  cases h with
  | done hlater =>
    refine .done fun s e hle => ?_
    rcases Nat.eq_or_lt_of_le hle with rfl | hlt
    · exact hnone e
    · exact hlater s e hlt
  | next hle hreads hleast hrest =>
    refine .next (Nat.le_of_succ_le hle) hreads (fun s e hle hlt => ?_) hrest
    rcases Nat.eq_or_lt_of_le hle with rfl | hafter
    · exact hnone e
    · exact hleast s e hafter hlt

/-- The scan has one outcome. -/
theorem Scans.unique {p : Nat} {ms ms' : List Match} (h : f.Scans text p ms)
    (h' : f.Scans text p ms') : ms = ms' := by
  induction h generalizing ms' with
  | done hnone =>
    cases h' with
    | done => rfl
    | next hle hreads => exact absurd hreads (hnone _ _ hle)
  | @next p m ms hle hreads hleast _ ih =>
    cases h' with
    | done hnone => exact absurd hreads (hnone _ _ hle)
    | @next _ m' ms' hle' hreads' hleast' hrest' =>
      have hstart : m.start = m'.start := by
        rcases Nat.lt_trichotomy m.start m'.start with hlt | heq | hlt
        · exact absurd hreads (hleast' _ _ hle hlt)
        · exact heq
        · exact absurd hreads' (hleast _ _ hle' hlt)
      have hm : m = m' := by
        cases m
        cases m'
        cases hstart
        cases hreads.unique hreads'
        rfl
      subst hm
      rw [ih hrest']

/-- The matches in what is left of a text are those of the reference scan from there. -/
theorem scans_matchesFrom (f : Family) (front cs : List Char) (skip : Nat) :
    f.Scans (front ++ cs) (front.length + skip) (f.pattern.matchesFrom front.length skip cs) := by
  -- `front` has been scanned; the first `skip` characters of the rest belong to the last match
  induction cs generalizing front skip with
  | nil =>
    refine .done fun s e hle h => ?_
    have := h.bounds
    rw [List.append_nil] at this
    omega
  | cons c cs ih =>
    have further (skip : Nat) : f.Scans (front ++ c :: cs) (front.length + 1 + skip)
        (f.pattern.matchesFrom (front.length + 1) skip cs) := by
      have h := ih (front ++ [c]) skip
      rwa [List.length_append, List.append_assoc] at h
    cases skip with
    | succ skip =>
      rw [Pattern.matchesFrom, Nat.add_comm skip, ← Nat.add_assoc]
      exact further skip
    | zero =>
      cases hm : f.pattern.match? (front.length == 0) (c :: cs) with
      | none =>
        simp only [Pattern.matchesFrom, hm]
        refine (further 0).of_succ fun e he => ?_
        rw [readsAt_length_iff, hm] at he
        cases he
      | some e =>
        simp only [Pattern.matchesFrom, hm]
        have hreads : f.ReadsAt (front ++ c :: cs) front.length e := readsAt_length_iff.mpr hm
        have hend : front.length + 1 + (e.length - 1) = front.length + e.length := by
          have := hreads.bounds
          omega
        refine .next (Nat.le_refl _) hreads (fun s e hle hlt => ?_) ?_
        · exact absurd hlt (Nat.not_lt.mpr hle)
        · rw [Match.span, ← hend]
          exact further (e.length - 1)

end Family

/-- **The matches of a pattern are those of the reference scan**, which takes the first place at
which the grammar of the family allows a tag, and goes on from the end of that tag. -/
theorem matches_eq_iff_scans (f : Family) (text : List Char) (ms : List Match) :
    f.pattern.matches text = ms ↔ f.Scans text 0 ms := by
  have hscans : f.Scans text 0 (f.pattern.matches text) := f.scans_matchesFrom [] text 0
  constructor
  · rintro rfl
    exact hscans
  · exact hscans.unique

/-- A tag that breaks off is passed over, and a tag in a content is part of the content. -/
example : (Pattern.para ['p']).matches
    "<para style=\"p\"<para style=\"p\"> <para style=\"p\">x</para>y</para>".toList =
      [⟨15, ⟨41, [⟨17, 34⟩]⟩⟩] :=
  rfl

end Passage.Tag
