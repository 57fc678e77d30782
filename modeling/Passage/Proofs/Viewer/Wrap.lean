import Mathlib.Data.List.Basic
import Passage.Viewer.Wrap

/-! Lines that take one row. Wrapping holds glyphs back until it knows which row they go on. As long
as no row is finished it holds all that it has read; what it drops after the first row is blanks, as
anything else would be the start of a second row (`Wrapping.OneRow.step`). So the row of a line that
takes one row has all glyphs of the line that fit a row, blanks at its end left aside, and each of
them starts within the width (`exists_of_wrapLine_eq`). A line that is narrower than the width takes
one row (`wrapLine_of_width_lt`), unless it is of blanks alone (`wrapLine_blanks`). -/

namespace Passage

variable {room : Nat} {g : Glyph} {gs hs seen row : List Glyph} {w : Wrapping}

namespace Glyph

theorem width_append (gs hs : List Glyph) : width (gs ++ hs) = width gs + width hs := by
  induction gs with
  | nil => exact (Nat.zero_add _).symm
  | cons g gs ih => simpa [width, Nat.add_assoc] using ih

def StartWithin (room : Nat) (gs : List Glyph) : Prop :=
  ∀ front g back, gs = front ++ g :: back → 0 < g.columns → width front < room

theorem StartWithin.of_append (h : StartWithin room (gs ++ hs)) : StartWithin room gs := by
  rintro front g back rfl hg
  exact h front g (back ++ hs) (by simp) hg

theorem StartWithin.concat (h : StartWithin room gs)
    (hg : 0 < g.columns → width gs < room) : StartWithin room (gs ++ [g]) := by
  intro front f back heq hf
  rcases List.eq_nil_or_concat' back with rfl | ⟨back, b, rfl⟩
  · obtain ⟨rfl, hlast⟩ := List.append_inj' heq rfl
    obtain rfl : g = f := List.head_eq_of_cons_eq hlast
    exact hg hf
  · rw [← List.cons_append, ← List.append_assoc] at heq
    exact h front f back (List.append_inj' heq rfl).1 hf

end Glyph

namespace Wrapping

/-- The glyphs that are on no row yet. -/
def held (w : Wrapping) : List Glyph :=
  w.row ++ w.blanks ++ w.word

def rowCount (w : Wrapping) : Nat :=
  w.rows.length + if w.held = [] then 0 else 1

@[simp] theorem held_commit (w : Wrapping) : w.commit.held = w.held := by
  simp [held, commit]

theorem held_hold_ne_nil (w : Wrapping) (g : Glyph) : (w.hold g).held ≠ [] := by
  rw [hold]
  split <;> simp [held]

@[simp] theorem rows_hold (w : Wrapping) (g : Glyph) : (w.hold g).rows = w.rows := by
  rw [hold]
  split <;> rfl

@[simp] theorem rows_breakRow (room : Nat) (w : Wrapping) :
    (w.breakRow room).rows = w.row :: w.rows :=
  rfl

/-- What is done with a glyph once it is settled what belongs to the row. -/
def put (room : Nat) (w : Wrapping) (g : Glyph) : Wrapping :=
  if room ≤ Glyph.width w.row || 0 < g.columns && room ≤ Glyph.width w.held then
    if g.isBreak && (w.breakRow room).blanks.isEmpty then w.breakRow room
    else (w.breakRow room).hold g
  else w.hold g

/-- A step takes what is held into the row or does not, and then puts the glyph. -/
theorem exists_step_eq (h : g.columns ≤ room) (w : Wrapping) :
    ∃ v, (v = w.commit ∨ v = w ∧ (w.inWord = true → g.isBreak = false)) ∧
      w.step room g = put room v g := by
  have hwidth (v : Wrapping) : Glyph.width v.row + Glyph.width v.blanks + Glyph.width v.word =
      Glyph.width v.held := by
    rw [held, Glyph.width_append, Glyph.width_append]
  rw [step, if_neg (Nat.not_lt.mpr h)]
  simp only [hwidth]
  split
  · exact ⟨_, .inl rfl, rfl⟩
  · next hkeep =>
    refine ⟨w, .inr ⟨rfl, fun hword => ?_⟩, rfl⟩
    simp only [hword, Bool.true_and, Bool.or_eq_true, not_or] at hkeep
    simpa using hkeep.1

/-! ## Rows are not taken back -/

theorem rowCount_hold (w : Wrapping) (g : Glyph) : (w.hold g).rowCount = w.rows.length + 1 := by
  rw [rowCount, if_neg (held_hold_ne_nil w g), rows_hold]

/-- After the rows that are finished there will be one more at least. -/
theorem lt_rowCount_put (room : Nat) (w : Wrapping) (g : Glyph) :
    w.rows.length < (put room w g).rowCount := by
  rw [put]
  split
  · split
    · exact Nat.le_add_right _ _
    · rw [rowCount_hold, rows_breakRow, List.length_cons]
      omega
  · rw [rowCount_hold]
    exact Nat.lt_succ_self _

theorem rowCount_le_step (w : Wrapping) (g : Glyph) : w.rowCount ≤ (w.step room g).rowCount := by
  by_cases h : g.columns ≤ room
  · obtain ⟨v, hv, hstep⟩ := exists_step_eq h w
    have hcount : v.rowCount = w.rowCount := by
      rcases hv with rfl | ⟨rfl, -⟩
      · have hrows : w.commit.rows = w.rows := rfl
        rw [rowCount, rowCount, held_commit, hrows]
      · rfl
    have hput := lt_rowCount_put room v g
    rw [hstep, ← hcount, rowCount]
    split <;> omega
  · exact Nat.le_of_eq (by rw [step, if_pos (Nat.lt_of_not_le h)])

theorem rowCount_le_finish (w : Wrapping) : w.rowCount ≤ w.finish.length := by
  have hrow : w.commit.row = w.held := rfl
  simp only [finish, hrow, rowCount]
  cases hheld : w.held with
  | nil =>
    have hblanks : w.blanks = [] := by
      simp only [held, List.append_eq_nil_iff] at hheld
      exact hheld.1.2
    cases hrows : w.rows <;> simp [hblanks]
  | cons g gs =>
    simp only [reduceCtorEq, if_false, List.isEmpty_cons, Bool.false_eq_true]
    split <;> simp

/-! ## One row -/

/-- All glyphs so far are held for the first row. -/
structure Filling (seen : List Glyph) (w : Wrapping) : Prop where
  rows : w.rows = []
  held : w.held = seen
  blanks : ∀ g ∈ w.blanks, g.isBreak = true
  word : w.inWord = false → w.word = []

theorem filling_empty : Filling [] {} where
  rows := rfl
  held := rfl
  blanks := by simp
  word _ := rfl

/-- Taking what is held into the row keeps the first row filling. A blank never meets a word that is
still held. -/
theorem Filling.settle (h : Filling seen w) {v : Wrapping}
    (hv : v = w.commit ∨ v = w ∧ (w.inWord = true → g.isBreak = false)) :
    Filling seen v ∧ (g.isBreak = true → v.word = []) := by
  rcases hv with rfl | ⟨rfl, hkeep⟩
  · refine ⟨⟨h.rows, by rw [held_commit, h.held], ?_, fun _ => rfl⟩, fun _ => rfl⟩
    simp [commit]
  · refine ⟨h, fun hbreak => h.word (Bool.eq_false_iff.mpr fun hin => ?_)⟩
    simp [hkeep hin] at hbreak

theorem Filling.hold (h : Filling seen w) (hword : g.isBreak = true → w.word = []) :
    Filling (seen ++ [g]) (w.hold g) := by
  rw [Wrapping.hold]
  split
  · next hbreak =>
    refine ⟨h.rows, ?_, ?_, fun _ => hword hbreak⟩
    · rw [← h.held]
      simp [Wrapping.held, hword hbreak]
    · simpa [or_imp, forall_and, hbreak] using h.blanks
  · refine ⟨h.rows, ?_, h.blanks, by simp⟩
    rw [← h.held]
    simp [Wrapping.held]

/-- Where wrapping stands after the glyphs `seen`: it has no row yet, or one and nothing else, or it
will have more rows than one. -/
inductive OneRow (room : Nat) (seen : List Glyph) (w : Wrapping) : Prop
  | filling : Filling seen w → Glyph.StartWithin room seen → OneRow room seen w
  | full {row dropped : List Glyph} : w.rows = [row] → w.held = [] → seen = row ++ dropped →
      Glyph.StartWithin room row → (∀ g ∈ dropped, g.isBreak = true) → OneRow room seen w
  | more : 2 ≤ w.rowCount → OneRow room seen w

/-- A full row takes no more glyphs; a blank after it is dropped, and anything else starts a second
row. -/
theorem Filling.breakRow (h : Filling seen w) (hwithin : Glyph.StartWithin room seen)
    (hword : g.isBreak = true → w.word = []) :
    OneRow room (seen ++ [g])
      (if g.isBreak && (w.breakRow room).blanks.isEmpty then w.breakRow room
        else (w.breakRow room).hold g) := by
  split
  · next hdrop =>
    simp only [Bool.and_eq_true, List.isEmpty_iff] at hdrop
    have hseen : seen = w.row ++ w.blanks := by
      rw [← h.held, Wrapping.held, hword hdrop.1, List.append_nil]
    have hrows : (w.breakRow room).rows = [w.row] := by rw [rows_breakRow, h.rows]
    have hheld : (w.breakRow room).held = [] := by
      change [] ++ (w.breakRow room).blanks ++ w.word = []
      rw [hdrop.2, hword hdrop.1]
      rfl
    have hsplit : seen ++ [g] = w.row ++ (w.blanks ++ [g]) := by rw [hseen, List.append_assoc]
    have hdropped : ∀ f ∈ w.blanks ++ [g], f.isBreak = true := by
      simpa [or_imp, forall_and, hdrop.1] using h.blanks
    rw [hseen] at hwithin
    exact .full hrows hheld hsplit hwithin.of_append hdropped
  · exact .more (by rw [rowCount_hold, rows_breakRow, h.rows]; exact Nat.le_refl 2)

theorem OneRow.step (h : OneRow room seen w) (hg : g.columns ≤ room) :
    OneRow room (seen ++ [g]) (w.step room g) := by
  obtain ⟨v, hv, hstep⟩ := exists_step_eq hg w
  cases h with
  | more hcount => exact .more (Nat.le_trans hcount (rowCount_le_step w g))
  | full hrows hheld =>
    have hrows' : v.rows = w.rows := by rcases hv with rfl | ⟨rfl, -⟩ <;> rfl
    have hput := lt_rowCount_put room v g
    rw [hrows', hrows, ← hstep] at hput
    exact .more hput
  | filling hfilling hwithin =>
    obtain ⟨hfilling, hword⟩ := hfilling.settle hv
    rw [hstep, put]
    split
    · exact hfilling.breakRow hwithin hword
    · next hroom =>
      simp only [Bool.or_eq_true, Bool.and_eq_true, decide_eq_true_eq, not_or, not_and,
        Nat.not_le, hfilling.held] at hroom
      exact .filling (hfilling.hold hword) (hwithin.concat hroom.2)

theorem OneRow.foldl (h : OneRow room seen w) (gs : List Glyph) :
    OneRow room (seen ++ gs.filter (·.columns ≤ room)) (gs.foldl (Wrapping.step room) w) := by
  induction gs generalizing seen w with
  | nil => simpa using h
  | cons g gs ih =>
    rw [List.foldl_cons]
    by_cases hg : g.columns ≤ room
    · rw [List.filter_cons_of_pos (by simpa using hg), List.append_cons]
      exact ih (h.step hg)
    · rw [List.filter_cons_of_neg (by simpa using hg), Wrapping.step,
        if_pos (Nat.lt_of_not_le hg)]
      exact ih h

/-- What is held becomes one row, with an empty row before it if it is blanks and no row has taken
them. -/
theorem Filling.finish (h : Filling seen w) :
    w.finish = if w.row.isEmpty && w.word.isEmpty && !w.blanks.isEmpty then [[], seen]
      else [seen] := by
  have hcommit : w.commit.row = seen := h.held
  simp only [Wrapping.finish, hcommit, h.rows]
  cases seen with
  | nil =>
    have hheld := h.held
    simp only [Wrapping.held, List.append_eq_nil_iff] at hheld
    simp [hheld.1.2]
  | cons g gs =>
    simp only [List.isEmpty_cons, Bool.false_eq_true, if_false]
    split <;> rfl

/-- If one row comes out, it has all that was seen but for blanks at the end. -/
theorem OneRow.finish (h : OneRow room seen w) (hrow : w.finish = [row]) :
    ∃ dropped, seen = row ++ dropped ∧ (∀ g ∈ dropped, g.isBreak = true) ∧
      Glyph.StartWithin room row := by
  cases h with
  | more hcount =>
    have := Nat.le_trans hcount (rowCount_le_finish w)
    rw [hrow] at this
    exact absurd this (Nat.not_succ_le_self 1)
  | full hrows hheld hseen hwithin hdropped =>
    have hcommit : w.commit.row = w.held := rfl
    have hblanks : w.blanks = [] := by
      simp only [held, List.append_eq_nil_iff] at hheld
      exact hheld.1.2
    simp [Wrapping.finish, hcommit, hheld, hblanks, hrows] at hrow
    subst hrow
    exact ⟨_, hseen, hdropped, hwithin⟩
  | filling hfilling hwithin =>
    have hseen : row = seen := by
      rw [hfilling.finish] at hrow
      split at hrow
      · cases hrow
      · exact (List.head_eq_of_cons_eq hrow).symm
    exact ⟨[], by rw [hseen, List.append_nil], by simp, hseen ▸ hwithin⟩

/-! ## Narrow lines -/

/-- As long as there is room, a glyph is held as well. -/
theorem Filling.step (h : Filling seen w) (hroom : Glyph.width seen + g.columns < room) :
    Filling (seen ++ [g]) (w.step room g) := by
  obtain ⟨v, hv, hstep⟩ := exists_step_eq (by omega : g.columns ≤ room) w
  obtain ⟨h, hword⟩ := h.settle hv
  have hrow : Glyph.width v.row ≤ Glyph.width seen := by
    rw [← h.held, Wrapping.held, List.append_assoc, Glyph.width_append]
    exact Nat.le_add_right _ _
  rw [hstep, put, h.held, if_neg]
  · exact h.hold hword
  · simp only [Bool.or_eq_true, Bool.and_eq_true, decide_eq_true_eq, not_or, not_and]
    omega

theorem Filling.foldl (h : Filling seen w) (gs : List Glyph)
    (hroom : Glyph.width (seen ++ gs) < room) :
    Filling (seen ++ gs) (gs.foldl (Wrapping.step room) w) := by
  induction gs generalizing seen w with
  | nil => simpa using h
  | cons g gs ih =>
    have hwidth : Glyph.width (seen ++ g :: gs) =
        Glyph.width seen + (g.columns + Glyph.width gs) := Glyph.width_append seen (g :: gs)
    rw [List.append_cons] at hroom ⊢
    rw [List.foldl_cons]
    exact ih (h.step (by rw [← List.append_cons] at hroom; omega)) hroom

/-- Blanks that there is room for are not taken into a row. -/
theorem foldl_step_blanks (bs : List Glyph) (hbreak : ∀ g ∈ gs, g.isBreak = true)
    (hroom : Glyph.width bs + Glyph.width gs < room) :
    gs.foldl (Wrapping.step room) { blanks := bs } = { blanks := bs ++ gs } := by
  induction gs generalizing bs with
  | nil => simp
  | cons g gs ih =>
    obtain ⟨hg, hgs⟩ := List.forall_mem_cons.mp hbreak
    have hwidth : Glyph.width (g :: gs) = g.columns + Glyph.width gs := rfl
    have hstep : Wrapping.step room { blanks := bs } g = { blanks := bs ++ [g] } := by
      have hnil : Glyph.width [] = 0 := rfl
      have h₁ : ¬ room < g.columns := by omega
      have h₂ : ¬ room < Glyph.width bs + g.columns := by omega
      have h₃ : ¬ room ≤ Glyph.width bs := by omega
      have h₄ : ¬ room ≤ 0 := by omega
      simp [Wrapping.step, Wrapping.hold, hg, hnil, h₁, h₂, h₃, h₄]
    have hbs : Glyph.width (bs ++ [g]) = Glyph.width bs + g.columns := Glyph.width_append bs [g]
    rw [List.foldl_cons, hstep, ih _ hgs (by omega), List.append_assoc]
    rfl

end Wrapping

/-- A line that is narrower than the room takes one row. -/
theorem wrapLine_of_width_lt (hroom : Glyph.width gs < room)
    (h : gs = [] ∨ ∃ g ∈ gs, g.isBreak = false) : wrapLine room gs = [gs] := by
  have hfilling := Wrapping.filling_empty.foldl gs hroom
  rw [List.nil_append] at hfilling
  rw [wrapLine, hfilling.finish, if_neg]
  intro hblank
  simp only [Bool.and_eq_true, List.isEmpty_iff, Bool.not_eq_true', List.isEmpty_eq_false_iff]
    at hblank
  obtain ⟨⟨hrow, hword⟩, hblanks⟩ := hblank
  have hheld := hfilling.held
  rw [Wrapping.held, hrow, hword, List.nil_append, List.append_nil] at hheld
  rcases h with rfl | ⟨g, hg, hbreak⟩
  · exact hblanks hheld
  · rw [← hheld] at hg
    rw [hfilling.blanks g hg] at hbreak
    cases hbreak

/-- But a line of blanks takes two, of which the first is empty. -/
theorem wrapLine_blanks (hroom : Glyph.width gs < room) (hne : gs ≠ [])
    (hbreak : ∀ g ∈ gs, g.isBreak = true) : wrapLine room gs = [[], gs] := by
  have hwidth : Glyph.width [] + Glyph.width gs < room := by rwa [← Glyph.width_append]
  have hfold := Wrapping.foldl_step_blanks [] hbreak hwidth
  rw [List.nil_append] at hfold
  rw [wrapLine, hfold]
  simp [Wrapping.finish, Wrapping.commit, hne]

end Passage
