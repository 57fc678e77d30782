import Passage.Proofs.Layout.Poetry
import Passage.Proofs.Render.Pins
import Passage.Proofs.Render.Splice
import Passage.Proofs.Tag.Grammar

/-! The stages of blocks and of character spans lose no text. Blanks aside, such a stage lets every
character outside its tags stand, keeps the content of a tag with the stage's styles added, and
drops the markup around it. A character is told by its place, so nothing is lost, doubled or moved
(`Stage.run_conserves`). -/

namespace Passage

/-- The characters that are no blanks. -/
def visible (cs : List StyledChar) : List StyledChar :=
  cs.filter fun c => !Text.isBlank c.1

/-- Where the content of a tag lies: it is the last part that the pattern captures. -/
def Tag.Match.content? (m : Tag.Match) : Option Span :=
  m.extent.groups.getLast?.map (Tag.shift m.start)

namespace Stage

/-- The stages that lay out blocks and spans and keep their content. -/
def conserving : List Stage :=
  [.majorSectionHeading, .sectionHeading, .paragraph, .poeticLine, .rightAlignedPoeticLine,
    .chapterLabel, .selah, .blankLine]

/-- The attributes that a stage adds to the content of its tags. -/
def contentStyles : Stage → List Attribute
  | majorSectionHeading | sectionHeading => [.bold, .alignCenter]
  | poeticLine => [.normal]
  | rightAlignedPoeticLine | selah => [.italic, .alignOpposite]
  | chapterLabel => [.bold]
  | _ => []

/-- The characters that a stage writes for one of the content. -/
def contentChar : Stage → Char → List Char
  | majorSectionHeading, c => Text.upperChar c
  | _, c => [c]

/-- The content of the tag is dropped: it is a major heading that opens the text, and these are
suppressed. -/
def dropsContent (s : Stage) (config : RenderConfig) (m : Tag.Match) : Bool :=
  s == majorSectionHeading && config.suppressLeadingHeading && m.start == 0

/-- A character of the content, as the stage leaves it. -/
def treat (s : Stage) (c : StyledChar) : List StyledChar :=
  (s.contentChar c.1).map fun d => (d, c.2.insertAll s.contentStyles)

/-- What a stage whose tags are at these matches leaves of the character at a place. -/
def kept (s : Stage) (config : RenderConfig) (ms : List Tag.Match) (p : StyledChar × Nat) :
    List StyledChar :=
  match ms.find? fun m => m.Covers p.2 with
  | none => [p.1]
  | some m =>
    if m.content?.any (fun s => s.start ≤ p.2 && p.2 < s.stop) && !s.dropsContent config m then
      s.treat p.1
    else []

end Stage

/-! ## Blanks -/

theorem visible_append (x y : List StyledChar) : visible (x ++ y) = visible x ++ visible y :=
  List.filter_append x y

theorem visible_eq_nil {x : List StyledChar} (h : ∀ c ∈ x, Text.isBlank c.1 = true) :
    visible x = [] := by
  refine List.filter_eq_nil_iff.mpr fun c hc => ?_
  rw [h c hc]
  exact Bool.false_ne_true

theorem visible_plain {cs : List Char} (h : cs.all Text.isBlank = true) :
    visible (StyledText.plain cs).chars = [] := by
  rw [StyledText.chars_plain]
  exact visible_eq_nil (List.forall_mem_map.mpr (List.all_eq_true.mp h))

/-- Upper case makes no blank of another character, and none of a blank. -/
theorem isBlank_upperChar {c d : Char} (h : d ∈ Text.upperChar c) :
    Text.isBlank d = Text.isBlank c := by
  cases hc : Text.isBlank c with
  | false => exact Text.isBlank_of_mem_upperChar h hc
  | true =>
    have hupper : Text.upperChar c = [c] := by
      simp only [Text.isBlank, Bool.or_eq_true, beq_iff_eq] at hc
      rcases hc with ((((rfl | rfl) | rfl) | rfl) | rfl) | rfl <;> rfl
    rw [hupper, List.mem_singleton] at h
    rw [h, hc]

theorem Stage.visible_treat (s : Stage) (c : StyledChar) :
    visible (s.treat c) = if Text.isBlank c.1 then [] else s.treat c := by
  have hchar : ∀ d ∈ s.contentChar c.1, Text.isBlank d = Text.isBlank c.1 := by
    intro d hd
    cases s with
    | majorSectionHeading => exact isBlank_upperChar hd
    | _ => rw [List.mem_singleton.mp hd]
  split
  · rename_i hc
    exact visible_eq_nil (List.forall_mem_map.mpr fun d hd => (hchar d hd).trans hc)
  · rename_i hc
    refine List.filter_eq_self.mpr (List.forall_mem_map.mpr fun d hd => ?_)
    rw [hchar d hd, Bool.eq_false_iff.mpr hc]
    rfl

theorem flatMap_filter_not {α β : Type} (q : α → Bool) (f : α → List β) (l : List α) :
    (l.filter (!q ·)).flatMap f = l.flatMap fun a => if q a then [] else f a := by
  induction l with
  | nil => rfl
  | cons a l ih =>
    rw [List.filter_cons, List.flatMap_cons, ← ih]
    cases q a <;> rfl

/-! ## Weaving, place by place -/

theorem visible_eq_flatMap (cs : List StyledChar) : visible cs = cs.flatMap fun c => visible [c] := by
  conv_lhs => rw [← List.flatMap_singleton' cs, visible, List.filter_flatMap]
  rfl

/-- If each place outside the matches keeps its character, and the places of each match have
together what is put there, then the places have together what is woven. -/
theorem visible_weave {g : StyledChar × Nat → List StyledChar} {cs : List StyledChar}
    {edits : List (Tag.Match × StyledText)} {offset : Nat}
    (hf : Tag.Following offset (edits.map Prod.fst))
    (hw : ∀ e ∈ edits, e.1.span.stop ≤ cs.length)
    (hkeep : ∀ p : StyledChar × Nat, offset ≤ p.2 → (∀ e ∈ edits, ¬ e.1.Covers p.2) →
      g p = visible [p.1])
    (hedit : ∀ e ∈ edits, visible e.2.chars =
      (((cs.drop e.1.start).take e.1.extent.length).zipIdx e.1.start).flatMap g) :
    visible (weave cs offset edits) = ((cs.drop offset).zipIdx offset).flatMap g := by
  rw [visible_eq_flatMap]
  refine flatMap_weave hf hw hkeep fun e he => ?_
  rw [← visible_eq_flatMap, hedit e he]

/-- Places that have nothing, of a stretch of `n`. -/
theorem flatMap_zipIdx_eq_nil {cs : List StyledChar} {g : StyledChar × Nat → List StyledChar}
    {i n : Nat} (h : ∀ p, i ≤ p.2 → p.2 < i + n → g p = []) :
    (((cs.drop i).take n).zipIdx i).flatMap g = [] := by
  refine List.flatMap_eq_nil_iff.mpr fun p hp => ?_
  have hlt := List.snd_lt_add_of_mem_zipIdx hp
  have hlen := List.length_take_le n (cs.drop i)
  exact h p (List.le_snd_of_mem_zipIdx hp) (by omega)

/-- What a part of a stretch of places has is what the stretch has, if the other places have
nothing. -/
theorem flatMap_zipIdx_part {cs : List StyledChar} {f : StyledChar → List StyledChar}
    {g : StyledChar × Nat → List StyledChar} {i a b j : Nat} (hia : i ≤ a) (hab : a ≤ b)
    (hbj : b ≤ j) (hj : j ≤ cs.length) (hin : ∀ p, a ≤ p.2 → p.2 < b → g p = f p.1)
    (hout : ∀ p, i ≤ p.2 → p.2 < j → ¬ (a ≤ p.2 ∧ p.2 < b) → g p = []) :
    (((cs.drop i).take (j - i)).zipIdx i).flatMap g = ((cs.drop a).take (b - a)).flatMap f := by
  have hsplit : (cs.drop i).take (j - i) = (cs.drop i).take (a - i) ++
      ((cs.drop a).take (b - a) ++ (cs.drop b).take (j - b)) := by
    rw [show j - i = a - i + (b - a + (j - b)) by omega, List.take_add, List.take_add,
      List.drop_drop, List.drop_drop, Nat.add_sub_of_le hia, Nat.add_sub_of_le hab]
  have hfront : ((cs.drop i).take (a - i)).length = a - i := by
    rw [List.length_take, List.length_drop]
    omega
  have hpart : ((cs.drop a).take (b - a)).length = b - a := by
    rw [List.length_take, List.length_drop]
    omega
  rw [hsplit, List.zipIdx_append, List.flatMap_append, List.zipIdx_append, List.flatMap_append,
    hfront, hpart, Nat.add_sub_of_le hia, Nat.add_sub_of_le hab]
  have hleft : (((cs.drop i).take (a - i)).zipIdx i).flatMap g = [] :=
    flatMap_zipIdx_eq_nil fun p hlo hhi => hout p hlo (by omega) (by omega)
  have hright : (((cs.drop b).take (j - b)).zipIdx b).flatMap g = [] :=
    flatMap_zipIdx_eq_nil fun p hlo hhi => hout p (by omega) (by omega) (by omega)
  have hmiddle : ∀ p ∈ ((cs.drop a).take (b - a)).zipIdx a, g p = f p.1 := by
    intro p hp
    have hlt := List.snd_lt_add_of_mem_zipIdx hp
    exact hin p (List.le_snd_of_mem_zipIdx hp) (by omega)
  rw [hleft, hright, List.nil_append, List.append_nil, List.flatMap_congr hmiddle]
  conv_rhs => rw [← List.zipIdx_map_fst a ((cs.drop a).take (b - a)), List.flatMap_map]

/-! ## Content -/

namespace Stage

variable {s : Stage} {config : RenderConfig} {t : StyledText} {m : Tag.Match}

/-- The last of the parts that a pattern of pieces captures is the content. -/
theorem content?_eq_group? {pieces : List Tag.Piece} {n : Nat} {cs : List Char}
    (hcount : (pieces.map Tag.Piece.captures).sum = n + 1)
    (hm : m ∈ (Tag.Pattern.tag pieces).matches cs) : m.content? = m.group? n := by
  obtain ⟨-, hmatch⟩ := Tag.Pattern.match?_of_mem_matches hm
  have hlen : m.extent.groups.length = n + 1 := (Tag.length_groups hmatch).trans hcount
  rw [Tag.Match.content?, Tag.Match.group?, List.getLast?_eq_getElem?, hlen, Nat.add_sub_cancel]

def contentOf (t : StyledText) (m : Tag.Match) : List StyledChar :=
  (m.content?.map fun s => (t.chars.drop s.start).take (s.stop - s.start)).getD []

theorem chars_group_of_content? {p : Tag.Pattern} {n : Nat} (hm : m ∈ p.matches t.text)
    (h : m.content? = m.group? n) : ((t.occurrence m).group n).chars = contentOf t m := by
  rw [StyledText.chars_group hm, contentOf, h]

/-- The characters of a content whose stage does not spell it anew. -/
theorem flatMap_treat (h : ∀ c, s.contentChar c = [c]) (cs : List StyledChar) :
    cs.flatMap s.treat = cs.map fun c => (c.1, c.2.insertAll s.contentStyles) := by
  rw [List.map_eq_flatMap]
  refine List.flatMap_congr fun c _ => ?_
  rw [treat, h]
  rfl

/-- The content with its styles is what is left of the content, character by character. -/
theorem chars_addStyles_content {u : StyledText} (h : ∀ c, s.contentChar c = [c])
    (hu : u.chars = contentOf t m) :
    (u.addStyles s.contentStyles).chars = (contentOf t m).flatMap s.treat := by
  rw [flatMap_treat h, StyledText.chars_addStyles, hu]

theorem contentOf_emptyPara {style : List Char}
    (hm : m ∈ (Tag.Pattern.emptyPara style).matches t.text) : contentOf t m = [] := by
  obtain ⟨-, hmatch⟩ := Tag.Pattern.match?_of_mem_matches hm
  have hlen : m.extent.groups.length = 0 := Tag.length_groups hmatch
  rw [contentOf, Tag.Match.content?, List.length_eq_zero_iff.mp hlen]
  rfl

end Stage

/-! ## What stands in the place of a tag -/

theorem visible_plain_append {cs : List Char} (h : cs.all Text.isBlank = true)
    (u : StyledText) : visible (StyledText.plain cs ++ u).chars = visible u.chars := by
  rw [StyledText.chars_append, visible_append, visible_plain h, List.nil_append]

theorem visible_append_plain {cs : List Char} (h : cs.all Text.isBlank = true)
    (u : StyledText) : visible (u ++ StyledText.plain cs).chars = visible u.chars := by
  rw [StyledText.chars_append, visible_append, visible_plain h, List.append_nil]

theorem visible_heading (u : StyledText) :
    visible (Block.heading u).chars = visible (u.addStyles [.bold, .alignCenter]).chars :=
  visible_append_plain rfl _

theorem visible_oppositeLine (u : StyledText) :
    visible (Block.oppositeLine u).chars = visible (u.addStyles [.italic, .alignOpposite]).chars :=
  visible_plain_append rfl _

theorem visible_paragraphAt (o : Occurrence) :
    visible (Block.paragraphAt o).chars = visible (o.group 0).chars := by
  have hindent : (if 0 < o.found.start then '\n' :: Block.indent else Block.indent).all
      Text.isBlank = true := by
    split <;> rfl
  rw [Block.paragraphAt, visible_append_plain rfl, visible_plain_append hindent]

theorem visible_lineAt (text : List Char) (o : Occurrence) :
    visible (Poetry.lineAt text o).chars = visible ((o.group 1).addStyles [.normal]).chars := by
  have hbreak (b : Bool) : (if b then ['\n'] else []).all Text.isBlank = true := by
    cases b <;> rfl
  have hindent (n : Nat) : (List.replicate n ' ').all Text.isBlank = true := by
    refine List.all_eq_true.mpr fun c hc => ?_
    rw [List.eq_of_mem_replicate hc]
    rfl
  rw [Poetry.lineAt, visible_append_plain (hbreak _), visible_plain_append]
  rw [List.all_append, hbreak, hindent, Bool.and_self]

namespace Stage

variable {s : Stage} {config : RenderConfig} {t : StyledText} {m : Tag.Match}

theorem visible_majorHeading {u : StyledText} (hu : u.chars = contentOf t m) :
    visible (Block.majorHeading u).chars =
      visible ((contentOf t m).flatMap (treat .majorSectionHeading)) := by
  rw [Block.majorHeading, visible_heading, StyledText.chars_addStyles,
    StyledText.chars_mapText_upper, hu, List.map_flatMap]
  congr 2
  funext c
  rw [List.map_map]
  rfl

/-- What a stage puts in the place of a tag is its content, and blanks. -/
theorem visible_rule (hs : s ∈ conserving) (hm : m ∈ s.pattern.matches t.text) :
    visible (s.rule config t (t.occurrence m)).chars =
      if s.dropsContent config m then [] else visible ((contentOf t m).flatMap s.treat) := by
  cases s with
  | majorSectionHeading =>
    have hu := chars_group_of_content? (n := 0) hm (content?_eq_group? rfl hm)
    rw [← visible_majorHeading hu]
    change visible (Block.majorHeadingAt _ _).chars =
      if config.suppressLeadingHeading && m.start == 0 then [] else _
    rw [Block.majorHeadingAt]
    split
    · rename_i hdrop
      exact (if_pos hdrop).symm
    · rename_i hdrop
      exact (if_neg hdrop).symm
  | sectionHeading =>
    have hu := chars_group_of_content? (n := 0) hm (content?_eq_group? rfl hm)
    rw [← chars_addStyles_content (fun _ => rfl) hu]
    exact visible_heading _
  | paragraph =>
    have hu := chars_group_of_content? (n := 0) hm (content?_eq_group? rfl hm)
    rw [flatMap_treat fun _ => rfl, ← hu]
    exact (visible_paragraphAt _).trans (congrArg visible (List.map_id _).symm)
  | poeticLine =>
    have hu := chars_group_of_content? (n := 1) hm (content?_eq_group? rfl hm)
    rw [← chars_addStyles_content (fun _ => rfl) hu]
    exact visible_lineAt _ _
  | rightAlignedPoeticLine | selah =>
    have hu := chars_group_of_content? (n := 0) hm (content?_eq_group? rfl hm)
    rw [← chars_addStyles_content (fun _ => rfl) hu]
    exact visible_oppositeLine _
  | chapterLabel =>
    have hu := chars_group_of_content? (n := 0) hm (content?_eq_group? rfl hm)
    rw [← chars_addStyles_content (fun _ => rfl) hu]
    rfl
  | blankLine =>
    rw [contentOf_emptyPara hm]
    exact visible_plain rfl
  | trim | lineBreaks | whitespace | verse | note => exact absurd hs (by decide)

/-! ## Conservation -/

/-- A place outside all tags keeps its character. -/
theorem kept_of_not_covers {ms : List Tag.Match} {p : StyledChar × Nat}
    (h : ∀ m ∈ ms, ¬ m.Covers p.2) : s.kept config ms p = [p.1] := by
  have hnone : ms.find? (fun m => m.Covers p.2) = none :=
    List.find?_eq_none.mpr fun m hm => by simpa using h m hm
  rw [kept, hnone]

/-- A place of a tag keeps its character, treated, where that is content and is not dropped. -/
theorem kept_of_covers (hm : m ∈ s.pattern.matches t.text) {p : StyledChar × Nat}
    (hp : m.Covers p.2) :
    s.kept config (s.pattern.matches t.text) p =
      if m.content?.any (fun u => u.start ≤ p.2 && p.2 < u.stop) && !s.dropsContent config m then
        s.treat p.1
      else [] := by
  have hf := s.pattern.following_matches t.text
  rw [← List.map_id (s.pattern.matches t.text)] at hf
  have hfind := hf.find?_covers hm hp
  simp only [id_eq] at hfind
  rw [kept, hfind]

/-- The content lies inside the tag. -/
theorem content?_within {p : Tag.Pattern} {cs : List Char} (hm : m ∈ p.matches cs) {u : Span}
    (hu : m.content? = some u) : m.start ≤ u.start ∧ u.start ≤ u.stop ∧ u.stop ≤ m.span.stop := by
  obtain ⟨-, hmatch⟩ := Tag.Pattern.match?_of_mem_matches hm
  obtain ⟨g, hg, rfl⟩ := Option.map_eq_some_iff.mp hu
  have hwithin := (Tag.Pattern.match?_within hmatch).groups g (List.mem_of_getLast? hg)
  simp only [Tag.shift, Tag.Match.span]
  omega

/-- What the places of a tag keep together is what the stage puts in its place. -/
theorem visible_rule_eq_flatMap (hs : s ∈ conserving) (hm : m ∈ s.pattern.matches t.text) :
    visible (s.rule config t (t.occurrence m)).chars =
      (((t.chars.drop m.start).take m.extent.length).zipIdx m.start).flatMap fun p =>
        if Text.isBlank p.1.1 then [] else s.kept config (s.pattern.matches t.text) p := by
  rw [visible_rule hs hm]
  by_cases hdrop : s.dropsContent config m = true
  · rw [if_pos hdrop, flatMap_zipIdx_eq_nil]
    intro p hlo hhi
    rw [kept_of_covers hm ⟨hlo, hhi⟩, hdrop, Bool.not_true, Bool.and_false,
      if_neg Bool.false_ne_true, ite_self]
  · rw [if_neg hdrop]
    cases hu : m.content? with
    | none =>
      rw [contentOf, hu, flatMap_zipIdx_eq_nil]
      · rfl
      · intro p hlo hhi
        rw [kept_of_covers hm ⟨hlo, hhi⟩, hu, Option.any_none, Bool.false_and,
          if_neg Bool.false_ne_true, ite_self]
    | some u =>
      obtain ⟨hstart, hle, hstop⟩ := content?_within hm hu
      have hend := Tag.Pattern.stop_le_of_mem_matches hm
      rw [t.length_text] at hend
      rw [contentOf, hu, Option.map_some, Option.getD_some, visible, List.filter_flatMap,
        show m.extent.length = m.span.stop - m.start from (Nat.add_sub_cancel_left ..).symm]
      refine (flatMap_zipIdx_part hstart hle hstop hend (fun p hlo hhi => ?_)
        fun p hlo hhi hout => ?_).symm
      · have hc : m.Covers p.2 := ⟨Nat.le_trans hstart hlo, Nat.lt_of_lt_of_le hhi hstop⟩
        rw [kept_of_covers hm hc, hu]
        simp only [Option.any_some, hlo, hhi, hdrop]
        exact (s.visible_treat p.1).symm
      · have hno : (decide (u.start ≤ p.2) && decide (p.2 < u.stop)) = false := by
          simpa using hout
        rw [kept_of_covers hm ⟨hlo, hhi⟩, hu, Option.any_some, hno, Bool.false_and,
          if_neg Bool.false_ne_true, ite_self]

/-- **Blanks aside, a stage of blocks or spans keeps the text.** In any run that is not cancelled,
and there is one, a character outside the tags stands as it is, the content of a tag stands with
the stage's attributes added, in upper case for major headings, and nothing else is there. The tags
are spelled as the grammar of their family has it. -/
theorem run_conserves (config : RenderConfig) (t : StyledText) {s : Stage} (hs : s ∈ conserving) :
    (s.run config (.always false) t).isSome ∧
    (∀ polls out, s.run config polls t = some out →
      visible out.chars = (t.chars.zipIdx.filter fun p => !Text.isBlank p.1.1).flatMap
        (s.kept config (s.pattern.matches t.text))) ∧
    ∃ f : Tag.Family, f.pattern = s.pattern ∧ ∀ m ∈ s.pattern.matches t.text, ∃ parts after,
      f.Spells (m.start == 0) parts after ∧ t.text.drop m.start = Tag.spell parts ++ after ∧
        m.extent = Tag.extentFrom 0 parts := by
  have hverse : s ≠ verse := by
    rintro rfl
    exact absurd hs (by decide)
  refine ⟨by rw [run_always]; rfl, fun polls out hout => ?_, ?_⟩
  · rw [run_eq] at hout
    split at hout
    · cases hout
      have hkeep : ∀ p : StyledChar × Nat, 0 ≤ p.2 → (∀ e ∈ s.edits config t, ¬ e.1.Covers p.2) →
          (if Text.isBlank p.1.1 then [] else s.kept config (s.pattern.matches t.text) p) =
            visible [p.1] := by
        intro p _ hnone
        rw [kept_of_not_covers fun m hm => hnone _ (List.mem_map_of_mem hm)]
        cases hp : Text.isBlank p.1.1 <;> simp [visible, hp]
      rw [chars_apply hverse, flatMap_filter_not, visible_weave (following_edits config t s)
        (fun e he => ?_) hkeep fun e he => ?_]
      · rfl
      · obtain ⟨m, hm, rfl⟩ := List.mem_map.mp he
        rw [← t.length_text]
        exact Tag.Pattern.stop_le_of_mem_matches hm
      · obtain ⟨m, hm, rfl⟩ := List.mem_map.mp he
        exact visible_rule_eq_flatMap hs hm
    · cases hout
  · obtain ⟨f, hf⟩ := Tag.exists_family s
    refine ⟨f, hf.symm, fun m hm => ?_⟩
    rw [hf] at hm
    obtain ⟨-, hmatch⟩ := Tag.Pattern.match?_of_mem_matches hm
    exact f.match?_eq_some_iff.mp hmatch

/-- A heading that opens the text and is suppressed, and one that is not. -/
theorem visible_majorSectionHeading_suppressed :
    visible (majorSectionHeading.apply { suppressLeadingHeading := true }
      (.plain "<para style=\"ms\">a</para> ".toList ++
        .styled "x<para style=\"ms\"> b</para>".toList (.ofList [.italic]))).chars =
      [('x', .ofList [.italic]), ('B', .ofList [.bold, .italic, .alignCenter])] := by
  have h := run_conserves { suppressLeadingHeading := true }
    (.plain "<para style=\"ms\">a</para> ".toList ++
      .styled "x<para style=\"ms\"> b</para>".toList (.ofList [.italic]))
    (show majorSectionHeading ∈ conserving by decide)
  rw [h.2.1 _ _ (run_always _ _ _)]
  decide

end Stage

end Passage
