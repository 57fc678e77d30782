import Passage.Proofs.Plain.Render

/-! The lines of plain blocks. In the layout each character of a block's content is labelled with
the number of the block (`labelled`), so a line that has labels of two blocks is one that they
share. A block that ends a line shares it with no later one, and one that starts a line shares it
with no earlier one; so only a heading can come onto the line of a block, right after an open one
(`joins_of_mem_line`). -/

namespace Passage.Plain

variable {i j k m n : Nat} {prev : Option Kind} {b : Block} {rest bs : List Block}
  {c d : Char} {line : List (Char × Option Nat)}

/-- A block in its place, with the characters of its content under the number `i`. -/
def Block.labelled (i : Nat) (prev : Option Kind) (rest : List Block) (b : Block) :
    List (Char × Option Nat) :=
  (lead prev b.kind).map (·, none) ++ b.shown.map (·, some i) ++
    (trail rest b.kind).map (·, none)

/-- The layout with the characters of each block's content under the number of the block; the first
block has number `i`. -/
def labelled (i : Nat) (prev : Option Kind) : List Block → List (Char × Option Nat)
  | [] => []
  | b :: rest => b.labelled i prev rest ++ labelled (i + 1) (some b.kind) rest

theorem map_fst_labelled (i : Nat) (prev : Option Kind) (bs : List Block) :
    (labelled i prev bs).map Prod.fst = (layout prev bs).text := by
  induction bs generalizing i prev with
  | nil => rfl
  | cons b bs ih =>
    simp [labelled, Block.labelled, layout, Block.text_laid, Function.comp_def, ih]

theorem Block.eq_of_mem_labelled (h : (c, some j) ∈ b.labelled i prev rest) : j = i := by
  simp [labelled] at h
  exact h.2.symm

theorem le_of_mem_labelled (h : (c, some j) ∈ labelled i prev bs) : i ≤ j := by
  induction bs generalizing i prev with
  | nil => cases h
  | cons b bs ih =>
    rw [labelled, List.mem_append] at h
    rcases h with h | h
    · exact (Block.eq_of_mem_labelled h).ge
    · exact Nat.le_of_succ_le (ih h)

/-- The characters under the number of a block. -/
def spelled (k : Nat) (cs : List (Char × Option Nat)) : List Char :=
  (cs.filter (·.2 == some k)).map Prod.fst

theorem spelled_append (k : Nat) (x y : List (Char × Option Nat)) :
    spelled k (x ++ y) = spelled k x ++ spelled k y := by
  simp [spelled]

theorem spelled_map (k : Nat) (l : Option Nat) (cs : List Char) :
    spelled k (cs.map (·, l)) = if l = some k then cs else [] := by
  induction cs with
  | nil => simp [spelled]
  | cons c cs ih =>
    unfold spelled at ih ⊢
    split at ih <;> simp_all

theorem spelled_eq_nil (h : k < i) : spelled k (labelled i prev bs) = [] := by
  rw [spelled, List.map_eq_nil_iff, List.filter_eq_nil_iff]
  rintro ⟨c, l⟩ hmem hl
  have hl : l = some k := by simpa using hl
  rw [hl] at hmem
  exact absurd (le_of_mem_labelled hmem) (Nat.not_le_of_lt h)

/-- Under the number of a block stands what is shown of it. -/
theorem spelled_labelled (i : Nat) (prev : Option Kind) (bs : List Block) (k : Nat) :
    spelled (i + k) (labelled i prev bs) = (bs[k]?.map Block.shown).getD [] := by
  induction bs generalizing i prev k with
  | nil => rfl
  | cons b bs ih =>
    simp only [labelled, Block.labelled, spelled_append, spelled_map]
    cases k with
    | zero => simp [spelled_eq_nil (Nat.lt_succ_self i)]
    | succ k =>
      have hnumber : i + (k + 1) = i + 1 + k := by omega
      have hlater := ih (i + 1) (some b.kind) k
      rw [← hnumber] at hlater
      simp [hlater]

theorem blank_of_unlabelled (h : (c, none) ∈ labelled i prev bs) : c = ' ' ∨ c = '\n' := by
  induction bs generalizing i prev with
  | nil => cases h
  | cons b bs ih =>
    simp only [labelled, Block.labelled, List.mem_append, List.mem_map, Prod.mk.injEq, and_true, reduceCtorEq,
      and_false, exists_false, or_false, exists_eq_right] at h
    rcases h with (h | h) | h
    · exact mem_lead h
    · exact .inr (mem_trail h)
    · exact ih h

/-! ## Lines that blocks share -/

/-- The first block is open and a heading follows it; if the block is a line of poetry, no open
block comes further on. -/
def joins : List Block → Bool
  | b :: next :: rest =>
    next.kind.isHeading && match b.kind with
      | .poeticLine .. => !rest.any (·.kind.isOpen)
      | .oppositeLine => true
      | _ => false
  | _ => false

/-- A block ends its line, or only a heading can come onto it. -/
theorem trail_eq_or (b : Block) (rest : List Block) :
    trail rest b.kind = ['\n'] ∨ trail rest b.kind = [] ∧ b.kind.isOpen = true ∧
      (rest.head?.any (·.kind.isHeading) = true → joins (b :: rest) = true) := by
  have hjoins (next : Block) (rest : List Block) (h : next.kind.isHeading = true) :
      (next :: rest).any (·.kind.isOpen) = rest.any (·.kind.isOpen) := by
    cases hk : next.kind <;> simp_all [Kind.isHeading, Kind.isOpen]
  cases hb : b.kind with
  | majorHeading | heading | paragraph => exact .inl rfl
  | oppositeLine =>
    refine .inr ⟨rfl, rfl, fun hheading => ?_⟩
    cases rest with
    | nil => cases hheading
    | cons next rest => simpa [joins, hb] using hheading
  | poeticLine =>
    rw [trail]
    split
    · exact .inl rfl
    · rename_i hbreak
      refine .inr ⟨rfl, rfl, fun hheading => ?_⟩
      rw [hheading, Bool.true_and] at hbreak
      cases rest with
      | nil => cases hheading
      | cons next rest =>
        rw [hjoins next rest hheading] at hbreak
        have hlast : rest.any (·.kind.isOpen) = false := by simpa using hbreak
        have hhead : next.kind.isHeading = true := hheading
        simp only [joins, hb, hhead, hlast]
        rfl

/-- A block starts its line after an open one, or it is a heading and ends its line. -/
theorem lead_eq_or {k : Kind} (hk : k.isOpen = true) (b : Block) (rest : List Block) :
    (∃ cs, lead (some k) b.kind = '\n' :: cs) ∨
      b.kind.isHeading = true ∧ lead (some k) b.kind = [] ∧ trail rest b.kind = ['\n'] := by
  cases b.kind with
  | majorHeading | heading => exact .inr ⟨rfl, rfl, rfl⟩
  | paragraph | oppositeLine => exact .inl ⟨_, rfl⟩
  | poeticLine => exact .inl ⟨_, by rw [lead, Option.any_some, hk, if_pos rfl]; rfl⟩

/-- After an open block the first line is empty or in a heading. -/
theorem exists_first_break {k : Kind} (hk : k.isOpen = true) (i : Nat) (b : Block)
    (rest : List Block) :
    ∃ x more, labelled i (some k) (b :: rest) = x ++ ('\n', none) :: more ∧
      ∀ p ∈ x, p.2 = some i ∧ b.kind.isHeading = true := by
  rw [labelled, Block.labelled]
  rcases lead_eq_or hk b rest with ⟨cs, hlead⟩ | ⟨hheading, hlead, htrail⟩
  · rw [hlead]
    exact ⟨[], _, rfl, List.forall_mem_nil _⟩
  · rw [hlead, htrail]
    refine ⟨b.shown.map (·, some i), labelled (i + 1) (some b.kind) rest, by simp, ?_⟩
    exact List.forall_mem_map.mpr fun _ _ => ⟨rfl, hheading⟩

theorem prefix_of_notMem {α : Type} {p : α} {x y more : List α} (h : y <+: x ++ p :: more)
    (hp : p ∉ y) : y <+: x := by
  induction x generalizing y with
  | nil =>
    rcases List.prefix_cons_iff.mp h with rfl | ⟨z, rfl, -⟩
    · exact List.nil_prefix
    · exact absurd List.mem_cons_self hp
  | cons c x ih =>
    rcases List.prefix_cons_iff.mp h with rfl | ⟨z, rfl, hz⟩
    · exact List.nil_prefix
    · exact List.cons_prefix_cons.mpr ⟨rfl, ih hz (List.not_mem_of_not_mem_cons hp)⟩

theorem eq_of_mem_first_line {k : Kind} (hk : k.isOpen = true)
    (h : line <+: labelled i (some k) bs)
    (hbreak : ∀ p ∈ line, p.1 ≠ '\n') (hd : (d, some n) ∈ line) :
    n = i ∧ bs.head?.any (·.kind.isHeading) = true := by
  cases bs with
  | nil =>
    rw [List.prefix_nil.mp h] at hd
    cases hd
  | cons b rest =>
    obtain ⟨x, more, hsplit, hx⟩ := exists_first_break hk i b rest
    rw [hsplit] at h
    have hfirst := prefix_of_notMem h fun hp => hbreak _ hp rfl
    obtain ⟨hn, hheading⟩ := hx _ (hfirst.subset hd)
    exact ⟨Option.some.inj hn, hheading⟩

/-- A line that goes on from a block into the blocks after it. -/
theorem joins_of_mem_across {x y : List (Char × Option Nat)} (hx : x <:+ b.labelled i prev rest)
    (hy : y <+: labelled (i + 1) (some b.kind) rest) (hbreak : ∀ p ∈ x ++ y, p.1 ≠ '\n')
    (hc : (c, some m) ∈ x ++ y) (hd : (d, some n) ∈ x ++ y) (hmn : m < n) :
    x = [] ∨ m = i ∧ n = i + 1 ∧ joins (b :: rest) = true := by
  rcases trail_eq_or b rest with htrail | ⟨-, hopen, hjoins⟩
  · rw [Block.labelled, htrail, List.map_singleton] at hx
    rcases List.suffix_concat_iff.mp hx with rfl | ⟨z, rfl, -⟩
    · exact .inl rfl
    · exact absurd rfl (hbreak ('\n', none) (by simp))
  · have hlabel {d : Char} {n : Nat} (h : (d, some n) ∈ x ++ y) :
        n = i ∨ n = i + 1 ∧ rest.head?.any (·.kind.isHeading) = true := by
      rcases List.mem_append.mp h with h | h
      · exact .inl (Block.eq_of_mem_labelled (hx.subset h))
      · exact .inr (eq_of_mem_first_line hopen hy
          (fun p hp => hbreak p (List.mem_append_right x hp)) h)
    rcases hlabel hd with hn | ⟨hn, hheading⟩
    · rcases hlabel hc with hm | ⟨hm, -⟩ <;> omega
    · refine .inr ⟨?_, hn, hjoins hheading⟩
      rcases hlabel hc with hm | ⟨hm, -⟩ <;> omega

/-- **Blocks that share a line** are an open block and the heading after it. -/
theorem joins_of_mem_line (h : line <:+: labelled i prev bs) (hbreak : ∀ p ∈ line, p.1 ≠ '\n')
    (hc : (c, some m) ∈ line) (hd : (d, some n) ∈ line) (hmn : m < n) :
    n = m + 1 ∧ joins (bs.drop (m - i)) = true := by
  induction bs generalizing i prev with
  | nil =>
    rw [List.infix_nil.mp h] at hc
    cases hc
  | cons b rest ih =>
    have hlater (h : line <:+: labelled (i + 1) (some b.kind) rest) :
        n = m + 1 ∧ joins ((b :: rest).drop (m - i)) = true := by
      have hle := le_of_mem_labelled (h.subset hc)
      have hdrop : m - i = m - (i + 1) + 1 := by omega
      rw [hdrop, List.drop_succ_cons]
      exact ih h
    rw [labelled, List.infix_append_iff] at h
    rcases h with h | h | ⟨x, y, rfl, hx, hy⟩
    · have hm := Block.eq_of_mem_labelled (h.subset hc)
      have hn := Block.eq_of_mem_labelled (h.subset hd)
      omega
    · exact hlater h
    · rcases joins_of_mem_across hx hy hbreak hc hd hmn with rfl | ⟨rfl, rfl, hjoins⟩
      · exact hlater hy.isInfix
      · rw [Nat.sub_self]
        exact ⟨rfl, hjoins⟩

/-! ## The render -/

theorem joins_shrunk (bs : List Block) : joins (bs.map Block.shrunk) = joins bs := by
  cases bs with
  | nil => rfl
  | cons b bs =>
    cases bs with
    | nil => rfl
    | cons next rest =>
      rw [List.map_cons, List.map_cons, joins, joins, List.any_map]
      rfl

/-- **Blocks are on lines of their own**, but for a heading right after an open block. In the text
of the render, with the characters of each block under its number, a line that has characters of two
blocks has them of two that follow each other, an open one and a heading; and if the open one is a
line of poetry, no open block comes further on. What stands between the blocks is spaces and line
breaks; `first` is the number of the first block that is shown. -/
theorem blocks_apart {config : RenderConfig} (h : config.expected = .unconstrained)
    (bs : List Block) :
    let first := hidden config.suppressLeadingHeading bs
    let cs := labelled first none ((bs.drop first).map Block.shrunk)
    cs.map Prod.fst = (render config Stage.all (.always false) (.plain (source bs))).text.text ∧
    (∀ k, spelled k cs =
      if k < first then [] else (bs[k]?.map fun b => b.shrunk.shown).getD []) ∧
    (∀ c, (c, none) ∈ cs → c = ' ' ∨ c = '\n') ∧
    ∀ line, line <:+: cs → (∀ p ∈ line, p.1 ≠ '\n') →
      ∀ c d i j, (c, some i) ∈ line → (d, some j) ∈ line → i < j →
        j = i + 1 ∧ joins (bs.drop i) = true := by
  intro first cs
  refine ⟨?_, fun k => ?_, fun c hc => blank_of_unlabelled hc, ?_⟩
  · rw [map_fst_labelled, render_plain h]
  · split
    · exact spelled_eq_nil ‹_›
    · rename_i hk
      have hnumber : first + (k - first) = k := by omega
      rw [← hnumber, spelled_labelled, List.getElem?_map, List.getElem?_drop, Option.map_map]
      rfl
  · intro line hline hbreak c d i j hc hd hij
    obtain ⟨hnext, hjoins⟩ := joins_of_mem_line hline hbreak hc hd hij
    have hle := le_of_mem_labelled (hline.subset hc)
    rw [← List.map_drop, joins_shrunk, List.drop_drop, Nat.add_sub_of_le hle] at hjoins
    exact ⟨hnext, hjoins⟩

/-- A paragraph, a line of poetry, a heading and a line on the trailing edge keep apart. -/
theorem blocks_apart_before_open :
    let bs : List Block :=
      [⟨.paragraph, ['a'], by decide, by decide, by rintro _ ⟨⟩; rfl⟩,
        ⟨.poetry 1, ['b'], by decide, by decide, by rintro _ ⟨⟩; rfl⟩,
        ⟨.heading, ['c'], by decide, by decide, by rintro _ ⟨⟩; rfl⟩,
        ⟨.oppositeLine, ['d'], by decide, by decide, by rintro _ ⟨⟩; rfl⟩]
    (render {} Stage.all (.always false) (.plain (source bs))).text.text =
        "    a\n    b\nc\n\nd".toList ∧
      ∀ line, line <:+: labelled 0 none bs → (∀ p ∈ line, p.1 ≠ '\n') →
        ∀ c d i j, (c, some i) ∈ line → (d, some j) ∈ line → ¬ i < j := by
  intro bs
  have hnone (i : Nat) : joins (bs.drop i) = false := by
    rcases i with _ | _ | _ | _ | i
    iterate 4 rfl
    rw [List.drop_eq_nil_of_le (Nat.le_add_left 4 i)]
    rfl
  have hconfig : ({} : RenderConfig).expected = .unconstrained := rfl
  obtain ⟨htext, -, -, hshared⟩ := blocks_apart hconfig bs
  refine ⟨htext.symm.trans (by decide), fun line hline hbreak c d i j hc hd hij => ?_⟩
  obtain ⟨-, hjoins⟩ := hshared line hline hbreak c d i j hc hd hij
  rw [hnone i] at hjoins
  cases hjoins

/-- A heading right after a line of poetry stands on that line if no open block comes later. -/
theorem heading_on_poeticLine :
    let bs : List Block :=
      [⟨.poetry 1, ['l', 'i', 'n', 'e'], by decide, by decide, by rintro _ ⟨⟩; rfl⟩,
        ⟨.heading, ['H', 'e', 'a', 'd'], by decide, by decide, by rintro _ ⟨⟩; rfl⟩]
    (render {} Stage.all (.always false) (.plain (source bs))).text.text = "    lineHead\n".toList ∧
      (labelled 0 none bs).map Prod.fst = "    lineHead\n".toList ∧
      ∃ line, line <:+: labelled 0 none bs ∧ (∀ p ∈ line, p.1 ≠ '\n') ∧
        ('e', some 0) ∈ line ∧ ('H', some 1) ∈ line := by
  intro bs
  refine ⟨by decide +kernel, by decide, [('e', some 0), ('H', some 1)], ?_, by decide, by decide,
    by decide⟩
  exact ⟨(labelled 0 none bs).take 7, (labelled 0 none bs).drop 9, by decide⟩

end Passage.Plain
