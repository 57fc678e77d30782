import Mathlib.Data.List.DropRight
import Mathlib.Data.List.SplitBy
import Passage.Proofs.Text.Words
import Passage.Styled.Text

/-! The spacing of styled characters. A text is cut into its maximal stretches of blanks and of
other characters. Squeezing puts one unstyled space in the place of some stretches of blanks and
trimming takes the blanks from both ends; neither touches the words. A text that is squeezed and
trimmed is its words joined by unstyled spaces (`join_words`). -/

namespace Passage.Spacing

def isBlank (c : StyledChar) : Bool :=
  Text.isBlank c.1

/-- What stands between two words. -/
def space : StyledChar :=
  (' ', ∅)

/-- The maximal stretches without blanks. -/
def words (cs : List StyledChar) : List (List StyledChar) :=
  wordsBy isBlank cs

/-- The maximal stretches of blanks, and those without blanks, in order. -/
def stretches (cs : List StyledChar) : List (List StyledChar) :=
  cs.splitBy fun c d => isBlank c == isBlank d

/-- The text with a space for each stretch that holds a character of a class of blanks. -/
def squeeze (q : StyledChar → Bool) (cs : List StyledChar) : List StyledChar :=
  (stretches cs).flatMap fun s => if s.any q then [space] else s

def trim (cs : List StyledChar) : List StyledChar :=
  (cs.dropWhile isBlank).rdropWhile isBlank

/-- Blanks are single unstyled spaces. -/
structure Squeezed (cs : List StyledChar) : Prop where
  spaces : ∀ c ∈ cs, isBlank c = true → c = space
  single : cs.IsChain fun c d => ¬ (isBlank c = true ∧ isBlank d = true)

/-- No blank stands at either end. -/
structure Trimmed (cs : List StyledChar) : Prop where
  head : cs.head?.map isBlank ≠ some true
  last : cs.getLast?.map isBlank ≠ some true

variable {cs : List StyledChar}

/-! ## Stretches -/

/-- A stretch at the front of a text that does not go on with it. -/
structure Leads (blank : Bool) (s cs : List StyledChar) : Prop where
  ne_nil : s ≠ []
  uniform : ∀ c ∈ s, isBlank c = blank
  stops : ∀ c ∈ cs.head?, isBlank c = !blank

variable {blank : Bool} {s : List StyledChar}

theorem Leads.stretches_append (h : Leads blank s cs) : stretches (s ++ cs) = s :: stretches cs := by
  have hchain : s.IsChain fun c d => (isBlank c == isBlank d) = true := by
    refine List.Pairwise.isChain (List.pairwise_of_forall_mem_list fun c hc d hd => ?_)
    rw [h.uniform c hc, h.uniform d hd, beq_self_eq_true]
  have hcut : ∀ c ∈ s.getLast?, ∀ d ∈ cs.head?, (isBlank c == isBlank d) = false := by
    intro c hc d hd
    rw [h.uniform c (List.mem_of_mem_getLast? hc), h.stops d hd]
    cases blank <;> rfl
  rw [stretches, List.splitBy_append hcut, List.splitBy_of_isChain h.ne_nil hchain]
  rfl

/-- A text that is not empty is a stretch and the text after it. -/
theorem exists_leads (hne : cs ≠ []) : ∃ blank s rest, Leads blank s rest ∧ cs = s ++ rest := by
  obtain ⟨c, rest, rfl⟩ := List.exists_cons_of_ne_nil hne
  let q : StyledChar → Bool := fun d => isBlank d == isBlank c
  have hc : q c = true := beq_self_eq_true (isBlank c)
  refine ⟨isBlank c, (c :: rest).takeWhile q, (c :: rest).dropWhile q, ⟨?_, ?_, ?_⟩,
    List.takeWhile_append_dropWhile.symm⟩
  · rw [List.takeWhile_cons_of_pos hc]
    exact List.cons_ne_nil _ _
  · intro d hd
    have hq : q d = true := List.mem_takeWhile_imp hd
    exact eq_of_beq hq
  · intro d hd
    have hq := List.head?_dropWhile_not q (c :: rest)
    rw [Option.mem_def.mp hd] at hq
    exact Bool.eq_not.mpr (ne_of_beq_false hq)

/-- Induction over the stretches of a text. -/
@[elab_as_elim]
theorem stretches_induction {P : List StyledChar → Prop} (cs : List StyledChar) (nil : P [])
    (append : ∀ blank s cs, Leads blank s cs → P cs → P (s ++ cs)) : P cs := by
  induction hn : cs.length using Nat.strongRecOn generalizing cs with
  | _ n ih =>
    by_cases hne : cs = []
    · rw [hne]
      exact nil
    · obtain ⟨blank, s, rest, h, rfl⟩ := exists_leads hne
      have hlen := List.length_pos_iff.mpr h.ne_nil
      rw [List.length_append] at hn
      exact append blank s rest h (ih rest.length (by omega) rest rfl)

/-- Every character of a stretch is the one kind, so its ends are. -/
theorem Leads.map_head? (h : Leads blank s cs) : s.head?.map isBlank = some blank := by
  obtain ⟨c, s, rfl⟩ := List.exists_cons_of_ne_nil h.ne_nil
  exact congrArg some (h.uniform c List.mem_cons_self)

theorem Leads.map_getLast? (h : Leads blank s cs) : s.getLast?.map isBlank = some blank := by
  rw [List.getLast?_eq_some_getLast h.ne_nil]
  exact congrArg some (h.uniform _ (List.getLast_mem h.ne_nil))

theorem Leads.words_append (h : Leads blank s cs) :
    words (s ++ cs) = if blank then words cs else s :: words cs := by
  cases blank with
  | true => exact wordsBy_append_of_forall h.uniform cs
  | false =>
    refine wordsBy_append_word h.ne_nil h.uniform ?_
    rw [Option.all_eq_true]
    exact h.stops

/-! ## Squeezing -/

section
variable {q : StyledChar → Bool} (hq : ∀ c, q c = true → isBlank c = true)
include hq

/-- What is put in the place of a stretch is of its kind. -/
theorem Leads.squeeze_piece (h : Leads blank s cs) :
    Leads blank (if s.any q then [space] else s) [] := by
  have hend : ∀ c ∈ ([] : List StyledChar).head?, isBlank c = !blank := fun c hc => nomatch hc
  split
  · rename_i hany
    obtain ⟨c, hc, hqc⟩ := List.any_eq_true.mp hany
    have hblank := h.uniform c hc
    rw [hq c hqc] at hblank
    exact ⟨List.cons_ne_nil _ _, List.forall_mem_singleton.mpr hblank, hend⟩
  · exact ⟨h.ne_nil, h.uniform, hend⟩

omit hq in
theorem squeeze_append (h : Leads blank s cs) :
    squeeze q (s ++ cs) = (if s.any q then [space] else s) ++ squeeze q cs := by
  rw [squeeze, h.stretches_append, List.flatMap_cons, squeeze]

theorem map_head?_squeeze (cs : List StyledChar) :
    (squeeze q cs).head?.map isBlank = cs.head?.map isBlank := by
  induction cs using stretches_induction with
  | nil => rfl
  | append blank s cs h ih =>
    rw [squeeze_append h, List.head?_append, List.head?_append, Option.map_or, Option.map_or,
      (h.squeeze_piece hq).map_head?, h.map_head?, ih]

theorem map_getLast?_squeeze (cs : List StyledChar) :
    (squeeze q cs).getLast?.map isBlank = cs.getLast?.map isBlank := by
  induction cs using stretches_induction with
  | nil => rfl
  | append blank s cs h ih =>
    rw [squeeze_append h, List.getLast?_append, List.getLast?_append, Option.map_or,
      Option.map_or, (h.squeeze_piece hq).map_getLast?, h.map_getLast?, ih]

theorem Leads.squeeze (h : Leads blank s cs) :
    Leads blank (if s.any q then [space] else s) (squeeze q cs) where
  ne_nil := (h.squeeze_piece hq).ne_nil
  uniform := (h.squeeze_piece hq).uniform
  stops c hc := by
    have hhead := map_head?_squeeze hq cs
    rw [Option.mem_def.mp hc, Option.map_some, eq_comm, Option.map_eq_some_iff] at hhead
    obtain ⟨d, hd, hdc⟩ := hhead
    rw [← hdc]
    exact h.stops d hd

/-- Squeezing keeps the words. -/
theorem words_squeeze (cs : List StyledChar) : words (squeeze q cs) = words cs := by
  induction cs using stretches_induction with
  | nil => rfl
  | append blank s cs h ih =>
    rw [squeeze_append h, (h.squeeze hq).words_append, h.words_append, ih]
    cases blank with
    | true => rfl
    | false =>
      have hany : ¬ s.any q = true := by
        rw [List.any_eq_true]
        rintro ⟨c, hc, hqc⟩
        exact Bool.eq_false_iff.mp (h.uniform c hc) (hq c hqc)
      rw [if_neg hany]

/-- Squeezing leaves the ends as they are. -/
theorem Trimmed.squeeze (h : Trimmed cs) : Trimmed (squeeze q cs) where
  head := by
    rw [map_head?_squeeze hq]
    exact h.head
  last := by
    rw [map_getLast?_squeeze hq]
    exact h.last

end

namespace Squeezed

theorem of_noBlank (h : ∀ c ∈ cs, isBlank c = false) : Squeezed cs where
  spaces c hc hb := absurd hb (Bool.eq_false_iff.mp (h c hc))
  single := List.Pairwise.isChain <| List.pairwise_of_forall_mem_list fun c hc _ _ hb =>
    Bool.eq_false_iff.mp (h c hc) hb.1

theorem of_isInfix {x : List StyledChar} (h : Squeezed cs) (hx : x <:+: cs) : Squeezed x where
  spaces c hc := h.spaces c (hx.subset hc)
  single := List.IsChain.infix h.single hx

theorem append (h : Leads blank s cs) (hs : Squeezed s) (hcs : Squeezed cs) :
    Squeezed (s ++ cs) where
  spaces c hc := (List.mem_append.mp hc).elim (hs.spaces c) (hcs.spaces c)
  single := by
    refine List.isChain_append.mpr ⟨hs.single, hcs.single, fun c hc d hd hb => ?_⟩
    rw [h.uniform c (List.mem_of_mem_getLast? hc), h.stops d hd] at hb
    cases blank <;> simp at hb

/-- A stretch of blanks is one space. -/
theorem eq_space (h : Leads true s cs) (hs : Squeezed s) : s = [space] := by
  obtain ⟨c, s, rfl⟩ := List.exists_cons_of_ne_nil h.ne_nil
  have hc := h.uniform c List.mem_cons_self
  cases s with
  | nil => rw [hs.spaces c List.mem_cons_self hc]
  | cons d s =>
    have hd := h.uniform d (List.mem_cons_of_mem c List.mem_cons_self)
    exact absurd ⟨hc, hd⟩ (List.isChain_cons_cons.mp hs.single).1

/-- There is nothing left to squeeze. -/
theorem squeeze_eq {q : StyledChar → Bool} (hq : ∀ c, q c = true → isBlank c = true)
    (hcs : Squeezed cs) : squeeze q cs = cs := by
  induction cs using stretches_induction with
  | nil => rfl
  | append blank s cs h ih =>
    rw [squeeze_append h, ih (hcs.of_isInfix (List.suffix_append s cs).isInfix)]
    split
    · rename_i hany
      obtain ⟨c, hc, hqc⟩ := List.any_eq_true.mp hany
      have hblank := h.uniform c hc
      rw [hq c hqc] at hblank
      subst hblank
      rw [eq_space h (hcs.of_isInfix (List.prefix_append s cs).isInfix)]
    · rfl

end Squeezed

theorem squeezed_squeeze (cs : List StyledChar) : Squeezed (squeeze isBlank cs) := by
  induction cs using stretches_induction with
  | nil => exact .of_noBlank fun c hc => nomatch hc
  | append blank s cs h ih =>
    rw [squeeze_append h]
    refine .append (h.squeeze fun _ hc => hc) ?_ ih
    split
    · exact ⟨fun c hc _ => List.mem_singleton.mp hc, .singleton _⟩
    · rename_i hany
      refine .of_noBlank fun c hc => Bool.eq_false_iff.mpr fun hb => hany ?_
      exact List.any_eq_true.mpr ⟨c, hc, hb⟩

/-! ## Trimming -/

/-- A text between the blanks at its ends. -/
theorem exists_trim (cs : List StyledChar) : ∃ x y, cs = x ++ (trim cs ++ y) ∧
    (∀ c ∈ x, isBlank c = true) ∧ ∀ c ∈ y, isBlank c = true := by
  refine ⟨cs.takeWhile isBlank, (cs.dropWhile isBlank).rtakeWhile isBlank, ?_,
    fun c hc => List.mem_takeWhile_imp hc, fun c hc => List.mem_rtakeWhile_imp hc⟩
  rw [trim, List.rdropWhile_append_rtakeWhile, List.takeWhile_append_dropWhile]

/-- Trimming keeps the words. -/
theorem words_trim (cs : List StyledChar) : words (trim cs) = words cs := by
  obtain ⟨x, y, h, hx, hy⟩ := exists_trim cs
  conv_rhs => rw [h, words, wordsBy_append_of_forall hx, wordsBy_append_gap _ hy]
  rfl

theorem Squeezed.trim (h : Squeezed cs) : Squeezed (trim cs) := by
  obtain ⟨x, y, hcs, -⟩ := exists_trim cs
  refine h.of_isInfix ?_
  conv_rhs => rw [hcs]
  rw [← List.append_assoc]
  exact List.infix_append x (Spacing.trim cs) y

theorem map_head?_dropWhile (cs : List StyledChar) :
    (cs.dropWhile isBlank).head?.map isBlank ≠ some true := by
  intro hb
  obtain ⟨c, hc, hcb⟩ := Option.map_eq_some_iff.mp hb
  have hnot := List.head?_dropWhile_not isBlank cs
  rw [hc] at hnot
  exact Bool.eq_false_iff.mp hnot hcb

theorem trimmed_trim (cs : List StyledChar) : Trimmed (trim cs) where
  head := by
    intro hb
    obtain ⟨y, hy⟩ := List.rdropWhile_prefix isBlank (l := cs.dropWhile isBlank)
    refine map_head?_dropWhile cs ?_
    rw [← hy, List.head?_append, Option.map_or]
    exact congrArg (Option.or · _) hb
  last := by
    by_cases hne : trim cs = []
    · simp [hne]
    · have hlast : ¬ isBlank ((trim cs).getLast hne) = true := List.rdropWhile_last_not _ _ hne
      rw [List.getLast?_eq_some_getLast hne, Option.map_some]
      exact fun h => hlast (Option.some.inj h)

/-- There is nothing left to trim. -/
theorem Trimmed.trim_eq (h : Trimmed cs) : trim cs = cs := by
  have hdrop : cs.dropWhile isBlank = cs := by
    cases cs with
    | nil => rfl
    | cons c cs => exact List.dropWhile_cons_of_neg fun hb => h.head (congrArg some hb)
  rw [trim, hdrop, List.rdropWhile_eq_self_iff]
  intro hne hb
  refine h.last ?_
  rw [List.getLast?_eq_some_getLast hne]
  exact congrArg some hb

/-! ## Words -/

/-- A space that is not the last character is followed by a word. -/
theorem Squeezed.eq_space_dropWhile (hs : Squeezed cs) (hhead : cs.head?.map isBlank = some true) :
    cs = space :: cs.dropWhile isBlank := by
  cases cs with
  | nil => cases hhead
  | cons c cs =>
    have hc : isBlank c = true := Option.some.inj hhead
    rw [List.dropWhile_cons_of_pos hc, hs.spaces c List.mem_cons_self hc]
    cases cs with
    | nil => rfl
    | cons d cs =>
      have hd : ¬ isBlank d = true := fun hd => (List.isChain_cons_cons.mp hs.single).1 ⟨hc, hd⟩
      rw [List.dropWhile_cons_of_neg hd]

theorem intercalate_words (hs : Squeezed cs) (hlast : cs.getLast?.map isBlank ≠ some true) :
    [space].intercalate (words cs) = cs.dropWhile isBlank := by
  induction cs using stretches_induction with
  | nil => rfl
  | append blank s cs h ih =>
    have hcs : Squeezed cs := hs.of_isInfix (List.suffix_append s cs).isInfix
    have hrest : cs.getLast?.map isBlank ≠ some true := by
      intro hb
      rw [List.getLast?_append, Option.map_or, hb] at hlast
      exact hlast rfl
    cases blank with
    | true =>
      rw [h.words_append, if_pos rfl, ih hcs hrest, List.dropWhile_append_of_pos h.uniform]
    | false =>
      have hdrop : (s ++ cs).dropWhile isBlank = s ++ cs := by
        obtain ⟨c, s, rfl⟩ := List.exists_cons_of_ne_nil h.ne_nil
        exact List.dropWhile_cons_of_neg (Bool.eq_false_iff.mp (h.uniform c List.mem_cons_self))
      rw [h.words_append, hdrop, if_neg Bool.false_ne_true]
      by_cases hne : cs = []
      · rw [hne, List.append_nil]
        exact List.intercalate_singleton
      · have hwords : words cs ≠ [] := by
          intro hnil
          rw [List.getLast?_eq_some_getLast hne, Option.map_some] at hrest
          exact hrest (congrArg some (wordsBy_eq_nil_iff.mp hnil _ (List.getLast_mem hne)))
        have hhead : cs.head?.map isBlank = some true := by
          rw [List.head?_eq_some_head hne]
          exact congrArg some (h.stops _ (List.head?_eq_some_head hne))
        rw [List.intercalate_cons_of_ne_nil hwords, ih hcs hrest, List.append_assoc,
          List.singleton_append, ← hcs.eq_space_dropWhile hhead]

/-- **Squeezed and trimmed, a text is its words joined by spaces.** -/
theorem join_words (hs : Squeezed cs) (ht : Trimmed cs) : [space].intercalate (words cs) = cs := by
  rw [intercalate_words hs ht.last]
  cases cs with
  | nil => rfl
  | cons c cs => exact List.dropWhile_cons_of_neg fun hb => ht.head (congrArg some hb)

end Passage.Spacing
