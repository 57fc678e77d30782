import Passage.Proofs.Render.Cancellation
import Passage.Proofs.Render.Passes
import Passage.Proofs.Styled.Spacing
import Passage.Proofs.Tag.Reading
import Passage.Proofs.Text.Shrink

/-! The three stages of blanks, as passes over the stretches of a text. Two of them squeeze and one
trims; each keeps the words and what the others have made. So in any order they leave the words
joined by unstyled spaces (`render_blanks`). -/

namespace Passage

namespace Spacing

variable {blank : Bool} {s cs : List StyledChar}

/-- What a pattern of blanks looks at, at the start of a stretch: the stretch, or else nothing. -/
theorem Leads.takeWhile (h : Leads blank s cs) :
    ((s ++ cs).map Prod.fst).takeWhile Text.isBlank = if blank then s.map Prod.fst else [] := by
  cases blank with
  | true =>
    have hrest : ∀ c ∈ (cs.map Prod.fst).head?, Text.isBlank c = false := by
      rw [List.head?_map]
      intro c hc
      obtain ⟨d, hd, rfl⟩ := Option.map_eq_some_iff.mp hc
      exact h.stops d hd
    rw [List.map_append, Tag.takeWhile_append_of_stop (List.forall_mem_map.mpr h.uniform) hrest,
      if_pos rfl]
  | false =>
    obtain ⟨c, s, rfl⟩ := List.exists_cons_of_ne_nil h.ne_nil
    exact List.takeWhile_cons_of_neg (Bool.eq_false_iff.mp (h.uniform c List.mem_cons_self))

/-- The rest of a stretch is a stretch. -/
theorem Leads.of_append {x y : List StyledChar} (h : Leads blank (x ++ y) cs) (hy : y ≠ []) :
    Leads blank y cs :=
  ⟨hy, fun c hc => h.uniform c (List.mem_append_right x hc), h.stops⟩

theorem chars_plain_space : (StyledText.plain [' ']).chars = [space] :=
  StyledText.chars_plain [' ']

/-! ## Squeezing passes -/

/-- A pattern that reads a stretch of blanks with a character of a class in it. -/
structure Finds (p : Tag.Pattern) (q : Char → Bool) : Prop where
  isBlank : ∀ c, q c = true → Text.isBlank c = true
  match?_eq : ∀ atStart cs, p.match? atStart cs =
    if (cs.takeWhile Text.isBlank).any q then some ⟨(cs.takeWhile Text.isBlank).length, []⟩
    else none

theorem finds_blanks : Finds .blanks Text.isBlank where
  isBlank _ h := h
  match?_eq atStart cs := by
    cases cs with
    | nil => rfl
    | cons c cs => by_cases hc : Text.isBlank c = true <;> simp [Tag.Pattern.match?, hc]

theorem finds_lineBreaks : Finds .lineBreaks (· == '\n') where
  isBlank c h := by
    rw [eq_of_beq h]
    rfl
  match?_eq atStart cs := by
    rw [List.any_beq']
    rfl

variable {p : Tag.Pattern} {q : Char → Bool} {offset : Nat}

/-- The pass that puts a space for what is found squeezes the text. -/
theorem Finds.passes (hp : Finds p q) (cs : List StyledChar) :
    Passes p (fun _ _ => (.plain [' '], ())) offset () cs (squeeze (fun c => q c.1) cs) () := by
  induction cs using stretches_induction generalizing offset with
  | nil => exact .nil
  | append blank s cs h ih =>
    rw [squeeze_append h]
    split
    · rename_i hany
      obtain ⟨c, hc, hqc⟩ := List.any_eq_true.mp hany
      have hblank : blank = true := (h.uniform c hc).symm.trans (hp.isBlank c.1 hqc)
      have hm : p.match? (offset == 0) ((s ++ cs).map Prod.fst) = some ⟨s.length, []⟩ := by
        rw [hp.match?_eq, h.takeWhile, if_pos hblank, List.any_map, List.length_map]
        exact if_pos hany
      rw [← chars_plain_space]
      exact .tag h.ne_nil rfl hm ih
    · rename_i hany
      refine .keep_append (fun y z hyz hz => ?_) ih
      subst hyz
      rw [hp.match?_eq, (h.of_append hz).takeWhile, if_neg]
      cases blank with
      | true =>
        rw [if_pos rfl, List.any_map]
        exact fun hz => hany (List.any_append ▸ Bool.or_eq_true_iff.mpr (.inr hz))
      | false => exact Bool.false_ne_true

/-! ## The trimming pass -/

/-- Blanks that a character follows are no end of the text. -/
theorem match?_blankEdges_eq_none {atStart : Bool} {cs : List Char}
    (hstart : atStart = true → cs.head?.map Text.isBlank ≠ some true)
    (hcs : ∃ c ∈ cs, Text.isBlank c = false) :
    Tag.Pattern.blankEdges.match? atStart cs = none := by
  have hrest : (cs.drop (cs.takeWhile Text.isBlank).length).isEmpty = false := by
    obtain ⟨c, hc, hcb⟩ := hcs
    rw [Tag.drop_length_takeWhile, Bool.eq_false_iff, Ne, List.isEmpty_iff,
      List.dropWhile_eq_nil_iff]
    intro hall
    rw [hall c hc] at hcb
    cases hcb
  cases atStart with
  | false => simp [Tag.Pattern.match?, hrest]
  | true =>
    cases cs with
    | nil => rfl
    | cons d cs =>
      have hd : ¬ Text.isBlank d = true := fun hd => hstart rfl (congrArg some hd)
      simp [Tag.Pattern.match?, hd]

/-- Blanks that no blank follows are found where the text starts, and where it ends. -/
theorem match?_blankEdges_append {atStart : Bool} {x cs : List StyledChar} (hne : x ≠ [])
    (hx : ∀ c ∈ x, isBlank c = true) (hcs : cs.head?.map isBlank ≠ some true)
    (hedge : atStart = true ∨ cs = []) :
    Tag.Pattern.blankEdges.match? atStart ((x ++ cs).map Prod.fst) = some ⟨x.length, []⟩ := by
  have hstop : ∀ c ∈ (cs.map Prod.fst).head?, Text.isBlank c = false := by
    rw [List.head?_map]
    intro c hc
    obtain ⟨d, hd, rfl⟩ := Option.map_eq_some_iff.mp hc
    rw [hd] at hcs
    exact Bool.eq_false_iff.mpr fun hb => hcs (congrArg some hb)
  have htake := Tag.takeWhile_append_of_stop (List.forall_mem_map.mpr hx) hstop
  rw [List.map_append]
  simp only [Tag.Pattern.match?, htake, List.length_map]
  rw [← List.length_map Prod.fst, List.drop_left]
  rcases hedge with rfl | rfl <;> simp [hne]

/-- From a place that the blanks at the start of the text do not reach, the pass takes those at its
end. -/
theorem passes_rdropWhile (h : offset = 0 → cs.head?.map isBlank ≠ some true) :
    Passes .blankEdges (fun _ _ => (∅, ())) offset () cs (cs.rdropWhile isBlank) () := by
  have hcs : cs.rdropWhile isBlank ++ cs.rtakeWhile isBlank = cs :=
    List.rdropWhile_append_rtakeWhile
  have hlast : ∀ hne : cs.rdropWhile isBlank ≠ [],
      ¬ isBlank ((cs.rdropWhile isBlank).getLast hne) = true := List.rdropWhile_last_not _ _
  have hblank : ∀ c ∈ cs.rtakeWhile isBlank, isBlank c = true :=
    fun c hc => List.mem_rtakeWhile_imp hc
  generalize cs.rdropWhile isBlank = x at hcs hlast ⊢
  generalize cs.rtakeWhile isBlank = y at hcs hblank
  subst hcs
  have hend : Passes .blankEdges (fun _ _ => (∅, ())) (offset + x.length) () y [] () := by
    by_cases hne : y = []
    · rw [hne]
      exact .nil
    · have hm : Tag.Pattern.blankEdges.match? (offset + x.length == 0) ((y ++ []).map Prod.fst) =
          some ⟨y.length, []⟩ :=
        match?_blankEdges_append hne hblank (by simp) (.inr rfl)
      rw [← List.append_nil y]
      exact .tag hne rfl hm .nil
  conv => arg 6; rw [← List.append_nil x]
  refine .keep_append (fun z w hzw hw => match?_blankEdges_eq_none (fun hstart => ?_) ?_) hend
  · -- at the start of the text nothing is kept yet
    have hz : offset = 0 ∧ z.length = 0 := by
      have hsum := eq_of_beq hstart
      omega
    obtain rfl := List.length_eq_zero_iff.mp hz.2
    rw [hzw] at h
    have hhead := h hz.1
    rwa [List.head?_map, Option.map_map]
  · subst hzw
    have hne : z ++ w ≠ [] := by simp [hw]
    refine ⟨(w.getLast hw).1, ?_, ?_⟩
    · exact List.mem_map_of_mem (List.mem_append_left y (List.getLast_mem hw))
    · have := hlast hne
      rw [List.getLast_append_of_ne_nil _ hw] at this
      exact Bool.eq_false_iff.mpr this

/-- The pass that takes the blanks at both ends trims the text. -/
theorem passes_trim (cs : List StyledChar) :
    Passes .blankEdges (fun _ _ => (∅, ())) 0 () cs (trim cs) () := by
  have hhead := map_head?_dropWhile cs
  have hcs : cs.takeWhile isBlank ++ cs.dropWhile isBlank = cs :=
    List.takeWhile_append_dropWhile
  have hblank : ∀ c ∈ cs.takeWhile isBlank, isBlank c = true :=
    fun c hc => List.mem_takeWhile_imp hc
  rw [trim]
  generalize cs.takeWhile isBlank = x at hcs hblank
  generalize cs.dropWhile isBlank = y at hcs hhead ⊢
  subst hcs
  by_cases hne : x = []
  · rw [hne]
    exact passes_rdropWhile fun _ => hhead
  · have hm : Tag.Pattern.blankEdges.match? true ((x ++ y).map Prod.fst) = some ⟨x.length, []⟩ :=
      match?_blankEdges_append hne hblank hhead (.inl rfl)
    exact .tag hne rfl hm (passes_rdropWhile fun _ => hhead)

/-! ## The stages -/

section
variable (config : RenderConfig) (t : StyledText)

theorem chars_apply_whitespace :
    (Stage.whitespace.apply config t).chars = squeeze isBlank t.chars := by
  rw [Stage.apply_eq_replaced (by decide)]
  exact (congrArg StyledText.chars (finds_blanks.passes t.chars).replaced_eq).trans
    (StyledText.chars_ofChars _)

theorem chars_apply_lineBreaks :
    (Stage.lineBreaks.apply config t).chars = squeeze (fun c => c.1 == '\n') t.chars := by
  rw [Stage.apply_eq_replaced (by decide)]
  exact (congrArg StyledText.chars (finds_lineBreaks.passes t.chars).replaced_eq).trans
    (StyledText.chars_ofChars _)

theorem chars_apply_trim : (Stage.trim.apply config t).chars = trim t.chars := by
  rw [Stage.apply_eq_replaced (by decide)]
  exact (congrArg StyledText.chars (passes_trim t.chars).replaced_eq).trans
    (StyledText.chars_ofChars _)

end

section
variable {config : RenderConfig} {t : StyledText} {s : Stage}
  (hs : s ∈ [Stage.trim, .lineBreaks, .whitespace])
include hs

/-- Each stage keeps the words, and what the others make of the blanks between and around them. -/
theorem apply_cases : (s.apply config t).chars = trim t.chars ∨
    ∃ q : StyledChar → Bool, (∀ c, q c = true → isBlank c = true) ∧
      (s.apply config t).chars = squeeze q t.chars := by
  simp only [List.mem_cons, List.not_mem_nil, or_false] at hs
  rcases hs with rfl | rfl | rfl
  · exact .inl (chars_apply_trim config t)
  · exact .inr ⟨_, fun c => finds_lineBreaks.isBlank c.1, chars_apply_lineBreaks config t⟩
  · exact .inr ⟨_, fun c => finds_blanks.isBlank c.1, chars_apply_whitespace config t⟩

theorem words_apply : words (s.apply config t).chars = words t.chars := by
  rcases apply_cases hs with h | ⟨q, hq, h⟩
  · rw [h, words_trim]
  · rw [h, words_squeeze hq]

theorem squeezed_apply (h : Squeezed t.chars) : Squeezed (s.apply config t).chars := by
  rcases apply_cases hs with h' | ⟨q, hq, h'⟩
  · rw [h']
    exact h.trim
  · rw [h', h.squeeze_eq hq]
    exact h

theorem trimmed_apply (h : Trimmed t.chars) : Trimmed (s.apply config t).chars := by
  rcases apply_cases hs with h' | ⟨q, hq, h'⟩
  · rw [h']
    exact trimmed_trim t.chars
  · rw [h']
    exact h.squeeze hq

theorem apply_of_tidy (hsq : Squeezed t.chars) (htr : Trimmed t.chars) : s.apply config t = t := by
  rw [StyledText.eq_iff_chars]
  rcases apply_cases hs with h | ⟨q, hq, h⟩
  · rw [h, htr.trim_eq]
  · rw [h, hsq.squeeze_eq hq]

end

/-- What one stage of a list makes so, and every stage of it keeps so, is so after the list. -/
theorem afterStages_of_mem {config : RenderConfig} {P : StyledText → Prop} {l : List Stage}
    {s : Stage} (hs : s ∈ l) (make : ∀ t, P (s.apply config t))
    (keep : ∀ r ∈ l, ∀ t, P t → P (r.apply config t)) (t : StyledText) :
    P (afterStages config t l) := by
  obtain ⟨front, back, rfl⟩ := List.append_of_mem hs
  rw [afterStages_append]
  change P (afterStages config (s.apply config (afterStages config t front)) back)
  refine afterStages_induction (fun r hr => keep r ?_) (make (afterStages config t front))
  exact List.mem_append_right front (List.mem_cons_of_mem s hr)

/-- Any list that has all the stages and no other leaves the words, joined by spaces. -/
theorem afterStages_stages (config : RenderConfig) {l : List Stage}
    (h : ∀ s, s ∈ l ↔ s ∈ [Stage.trim, .lineBreaks, .whitespace]) (t : StyledText) :
    Squeezed (afterStages config t l).chars ∧ Trimmed (afterStages config t l).chars ∧
      (afterStages config t l).chars = [space].intercalate (words t.chars) := by
  have hsq : Squeezed (afterStages config t l).chars := by
    have hmem : Stage.whitespace ∈ l := (h _).mpr (by decide)
    refine afterStages_of_mem (P := fun t => Squeezed t.chars) hmem (fun t => ?_)
      (fun r hr t => squeezed_apply ((h r).mp hr)) t
    rw [chars_apply_whitespace]
    exact squeezed_squeeze t.chars
  have htr : Trimmed (afterStages config t l).chars := by
    have hmem : Stage.trim ∈ l := (h _).mpr (by decide)
    refine afterStages_of_mem (P := fun t => Trimmed t.chars) hmem (fun t => ?_)
      (fun r hr t => trimmed_apply ((h r).mp hr)) t
    rw [chars_apply_trim]
    exact trimmed_trim t.chars
  have hwords : words (afterStages config t l).chars = words t.chars :=
    afterStages_induction (P := fun u => words u.chars = words t.chars)
      (fun r hr u hu => (words_apply ((h r).mp hr)).trans hu) rfl
  refine ⟨hsq, htr, ?_⟩
  rw [← hwords, join_words hsq htr]

/-! ## Unstyled text -/

theorem trim_unstyled (cs : List Char) :
    trim (cs.map fun c => (c, ∅)) =
      (Text.trimBoth Text.isBlank cs).map fun c => ((c, ∅) : StyledChar) := by
  have hblank : isBlank ∘ (fun c => ((c, ∅) : StyledChar)) = Text.isBlank := rfl
  rw [trim, List.dropWhile_map, List.rdropWhile, ← List.map_reverse, List.dropWhile_map, hblank,
    ← List.map_reverse]
  rfl

/-- The stages of blanks trim an unstyled text and shrink it. -/
theorem afterStages_unstyled (config : RenderConfig) {l : List Stage}
    (h : ∀ s, s ∈ l ↔ s ∈ [Stage.trim, .lineBreaks, .whitespace]) (cs : List Char) :
    afterStages config (.plain cs) l = .plain (Text.shrink (Text.trimBoth Text.isBlank cs)) := by
  obtain ⟨-, -, hchars⟩ := afterStages_stages config h (.plain cs)
  have htrimmed : Trimmed (trim (StyledText.plain cs).chars) := trimmed_trim _
  rw [StyledText.eq_iff_chars, hchars, StyledText.chars_plain, StyledText.chars_plain,
    ← Text.squeeze_unstyled, ← trim_unstyled, ← StyledText.chars_plain,
    ← join_words (squeezed_squeeze _) (htrimmed.squeeze fun _ hc => hc),
    words_squeeze fun _ hc => hc, words_trim]

end Spacing

open Spacing

/-- **The stages of blanks in any order** leave the words of the text with their styles, joined by
unstyled spaces. They find nothing to change in that, and the stage of line breaks alone puts a
space for each stretch of blanks that holds a line feed. -/
theorem render_blanks (config : RenderConfig) (t : StyledText) {l : List Stage}
    (h : l.Perm [.trim, .lineBreaks, .whitespace]) :
    let report := render config l (.always false) t
    report.completed = l ∧ report.cancelled = none ∧
      report.text = .ofChars ([(' ', ∅)].intercalate (wordsBy (Text.isBlank ·.1) t.chars)) ∧
      report.text.text = [' '].intercalate (wordsBy Text.isBlank t.text) ∧
      (∀ again ⊆ l, (render config again (.always false) report.text).text = report.text) ∧
      Stage.lineBreaks.run config (.always false) t =
        some (.ofChars ((stretches t.chars).flatMap fun s =>
          if s.any (·.1 == '\n') then [(' ', ∅)] else s)) := by
  obtain ⟨hsq, htr, hchars⟩ := afterStages_stages config (fun s => h.mem_iff) t
  simp only [render_always]
  refine ⟨trivial, trivial, ?_, ?_, fun again hagain => ?_, ?_⟩
  · rw [StyledText.eq_ofChars_iff, hchars]
    rfl
  · rw [StyledText.text_eq_map_chars, StyledText.text_eq_map_chars, hchars, map_intercalate,
      wordsBy_map]
    rfl
  · refine afterStages_induction (P := fun u => u = afterStages config t l) ?_ rfl
    rintro s hs u rfl
    exact apply_of_tidy (h.mem_iff.mp (hagain hs)) hsq htr
  · rw [Stage.run_always, Option.some.injEq, StyledText.eq_ofChars_iff, chars_apply_lineBreaks]
    rfl

theorem render_blanks_styled :
    (render {} [.whitespace, .lineBreaks, .trim] (.always false)
      (.ofChars [('\t', ∅), ('a', ∅), (' ', ∅), ('b', .ofList [.bold]), ('\n', .ofList [.bold]),
        (' ', ∅), ('c', ∅)])).text =
      .ofChars [('a', ∅), (' ', ∅), ('b', .ofList [.bold]), (' ', ∅), ('c', ∅)] := by
  have h := render_blanks {} (.ofChars [('\t', ∅), ('a', ∅), (' ', ∅), ('b', .ofList [.bold]),
    ('\n', .ofList [.bold]), (' ', ∅), ('c', ∅)])
    (show [Stage.whitespace, .lineBreaks, .trim].Perm [.trim, .lineBreaks, .whitespace] by decide)
  rw [h.2.2.1, StyledText.chars_ofChars]
  decide

end Passage
