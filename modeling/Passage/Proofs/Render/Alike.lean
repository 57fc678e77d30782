import Passage.Proofs.Render.Complete
import Passage.Proofs.Styled.Alike

/-! Two renders side by side. A stage finds its tags in the characters alone, and it gives styles in
four ways only: it writes unstyled text, adds attributes that are no tap target, writes a note's
glyph and writes a verse's label. A relation of style sets that is closed under these four
(`Respected`) is kept by every stage (`alike_apply`), and so by a render: alike texts have alike
renders, with the same stages completed and cancelled (`alike_renderWith`). The configurations
of the two renders may differ in their handlers. -/

namespace Passage

/-- The configurations differ in their handlers at most. -/
structure RenderConfig.SameChoices (c d : RenderConfig) : Prop where
  renderVerses : c.renderVerses = d.renderVerses
  expected : c.expected = d.expected
  suppressLeadingHeading : c.suppressLeadingHeading = d.suppressLeadingHeading
  breakBeforeVerses : c.breakBeforeVerses = d.breakBeforeVerses

def VerseMarker.styles (m : VerseMarker) (tappable : Bool) : StyleSet :=
  .ofList (if tappable then [.bold, .clickable m.region] else [.bold])

def NoteMarker.styles (n : NoteMarker) : StyleSet :=
  .ofList [.italic, .clickable n.region]

/-- A relation of style sets that holds between what two renders give, one under each
configuration. -/
structure Respected (r : StyleSet → StyleSet → Prop) (c d : RenderConfig) : Prop where
  choices : c.SameChoices d
  unstyled : r ∅ ∅
  insertAll : ∀ {s t : StyleSet} {attributes : List Attribute},
    (∀ a ∈ attributes, a.region? = none) → r s t →
      r (s.insertAll attributes) (t.insertAll attributes)
  note : ∀ n : NoteMarker, r n.styles n.styles
  label : ∀ m : VerseMarker, r (m.styles c.verseHandler) (m.styles d.verseHandler)

variable {r : StyleSet → StyleSet → Prop} {c d : RenderConfig} {t u : StyledText}

/-! ## Texts -/

/-- Styled texts of which the characters are alike. -/
def StyledText.AlikeTo (r : StyleSet → StyleSet → Prop) (t u : StyledText) : Prop :=
  Alike r t.chars u.chars

namespace StyledText.AlikeTo

variable {t' u' : StyledText}

theorem text_eq (h : t.AlikeTo r u) : t.text = u.text := by
  rw [text_eq_map_chars, text_eq_map_chars, h.map_fst_eq]

theorem append (h : t.AlikeTo r u) (h' : t'.AlikeTo r u') : (t ++ t').AlikeTo r (u ++ u') := by
  rw [AlikeTo, chars_append, chars_append]
  exact Alike.append h h'

theorem extract (h : t.AlikeTo r u) (s : Span) : (t.extract s).AlikeTo r (u.extract s) := by
  rw [AlikeTo, chars_extract, chars_extract]
  exact (Alike.drop s.start h).take _

theorem upper (h : t.AlikeTo r u) : (t.mapText Text.upper).AlikeTo r (u.mapText Text.upper) := by
  rw [AlikeTo, chars_mapText_upper, chars_mapText_upper]
  exact Alike.respell Text.upperChar h

theorem empty : (∅ : StyledText).AlikeTo r ∅ :=
  .nil

theorem styled {s s' : StyleSet} (h : r s s') (cs : List Char) :
    (StyledText.styled cs s).AlikeTo r (.styled cs s') := by
  rw [AlikeTo, chars_styled, chars_styled]
  exact .uniform h cs

end StyledText.AlikeTo

namespace Respected

variable (hr : Respected r c d)
include hr

theorem plain (cs : List Char) : (StyledText.plain cs).AlikeTo r (.plain cs) :=
  .styled hr.unstyled cs

theorem addStyles (h : t.AlikeTo r u) {attributes : List Attribute}
    (ha : ∀ a ∈ attributes, a.region? = none) :
    (t.addStyles attributes).AlikeTo r (u.addStyles attributes) := by
  rw [StyledText.AlikeTo, StyledText.chars_addStyles, StyledText.chars_addStyles]
  exact Alike.restyle (fun _ _ hst => hr.insertAll ha hst) h

theorem heading (h : t.AlikeTo r u) : (Block.heading t).AlikeTo r (Block.heading u) :=
  (hr.addStyles h (by decide)).append (hr.plain _)

theorem oppositeLine (h : t.AlikeTo r u) :
    (Block.oppositeLine t).AlikeTo r (Block.oppositeLine u) :=
  (hr.plain _).append (hr.addStyles h (by decide))

theorem alike_render (m : VerseMarker) :
    (m.render c.verseHandler).AlikeTo r (m.render d.verseHandler) := by
  have hl := hr.label m
  simp only [VerseMarker.styles, apply_ite StyleSet.ofList] at hl
  simp only [VerseMarker.render, apply_ite StyleSet.ofList]
  exact (StyledText.AlikeTo.styled hl m.label).append (hr.plain _)

end Respected

/-! ## Passes -/

/-- The same match in alike texts. -/
structure Occurrence.AlikeTo (r : StyleSet → StyleSet → Prop) (o o' : Occurrence) : Prop where
  found : o.found = o'.found
  tag : o.tag.AlikeTo r o'.tag

theorem Occurrence.AlikeTo.group {o o' : Occurrence} (h : o.AlikeTo r o') (i : Nat) :
    (o.group i).AlikeTo r (o'.group i) := by
  rw [Occurrence.group, Occurrence.group, h.found]
  cases o'.found.extent.groups[i]? with
  | none => exact .empty
  | some s => exact h.tag.extract s

theorem StyledText.AlikeTo.occurrence (h : t.AlikeTo r u) (m : Tag.Match) :
    (t.occurrence m).AlikeTo r (u.occurrence m) :=
  ⟨rfl, h.extract m.span⟩

/-- Answers to the same matches, alike one by one. -/
def AlikeAnswers (r : StyleSet → StyleSet → Prop) (l l' : List (Tag.Match × StyledText)) : Prop :=
  List.Forall₂ (fun p q => p.1 = q.1 ∧ p.2.AlikeTo r q.2) l l'

theorem alike_weave {cs ds : List StyledChar} (h : Alike r cs ds)
    {l l' : List (Tag.Match × StyledText)} (hl : AlikeAnswers r l l') (offset : Nat) :
    Alike r (weave cs offset l) (weave ds offset l') := by
  induction hl generalizing offset with
  | nil => exact h.drop offset
  | @cons p q l l' hp _ ih =>
    obtain ⟨m, v⟩ := p
    obtain ⟨_, v'⟩ := q
    obtain ⟨rfl, hv⟩ := hp
    exact (((h.drop offset).take _).append hv).append (ih m.span.stop)

/-- Rules that answer alike and go on in the same state. -/
def AlikeRules {σ : Type} (r : StyleSet → StyleSet → Prop)
    (rule rule' : σ → Occurrence → StyledText × σ) : Prop :=
  ∀ s o o', Occurrence.AlikeTo r o o' →
    (rule s o).1.AlikeTo r (rule' s o').1 ∧ (rule s o).2 = (rule' s o').2

section Rules

variable {σ : Type} {rule rule' : σ → Occurrence → StyledText × σ}

theorem answers_alike (h : t.AlikeTo r u) (hrule : AlikeRules r rule rule')
    (s : σ) (ms : List Tag.Match) :
    AlikeAnswers r (answers t rule s ms).1 (answers u rule' s ms).1 ∧
      (answers t rule s ms).2 = (answers u rule' s ms).2 := by
  induction ms generalizing s with
  | nil => exact ⟨.nil, rfl⟩
  | cons m ms ih =>
    obtain ⟨hanswer, hstate⟩ := hrule s _ _ (h.occurrence m)
    obtain ⟨hmore, hlast⟩ := ih (rule s (t.occurrence m)).2
    simp only [answers]
    rw [← hstate]
    exact ⟨.cons ⟨rfl, hanswer⟩ hmore, hlast⟩

theorem StyledText.AlikeTo.rewritten (h : t.AlikeTo r u) (p : Tag.Pattern)
    (hrule : AlikeRules r rule rule') (s : σ) :
    (t.rewritten p rule s).AlikeTo r (u.rewritten p rule' s) := by
  rw [AlikeTo, StyledText.rewritten, StyledText.rewritten, chars_ofChars, chars_ofChars,
    ← h.text_eq]
  exact alike_weave h (answers_alike h hrule s _).1 0

end Rules

theorem StyledText.AlikeTo.replaced (h : t.AlikeTo r u) (p : Tag.Pattern)
    {rule rule' : Occurrence → StyledText}
    (hrule : ∀ o o', Occurrence.AlikeTo r o o' → (rule o).AlikeTo r (rule' o')) :
    (t.replaced p rule).AlikeTo r (u.replaced p rule') := by
  have hrules : AlikeRules r (fun (_ : Unit) o => (rule o, ())) fun _ o => (rule' o, ()) :=
    fun _ o o' ho => ⟨hrule o o' ho, rfl⟩
  have hrewritten := h.rewritten p hrules ()
  rwa [StyledText.rewritten, StyledText.rewritten, answers_stateless, answers_stateless]
    at hrewritten

/-! ## Stages -/

namespace Respected

variable (hr : Respected r c d)
include hr

theorem alike_noteAt {o o' : Occurrence} (h : o.AlikeTo r o') :
    (noteAt o).AlikeTo r (noteAt o') := by
  rw [noteAt, noteAt, (h.group 0).text_eq, (h.group 1).text_eq]
  split
  · rename_i n _
    exact .styled (hr.note n) n.glyph
  · rw [Occurrence.raw, Occurrence.raw, h.tag.text_eq]
    exact hr.plain _

theorem alike_lineAt {o o' : Occurrence} (h : o.AlikeTo r o') (text : List Char) :
    (Poetry.lineAt text o).AlikeTo r (Poetry.lineAt text o') := by
  have hnormal : ∀ a ∈ [Attribute.normal], a.region? = none := by decide
  have hcontent := hr.addStyles (h.group 1) hnormal
  simp only [Poetry.lineAt]
  rw [h.found, (h.group 0).text_eq, hcontent.text_eq]
  exact ((hr.plain _).append hcontent).append (hr.plain _)

theorem alike_rule (s : Stage) (ht : t.text = u.text) {o o' : Occurrence} (h : o.AlikeTo r o') :
    (s.rule c t o).AlikeTo r (s.rule d u o') := by
  cases s with
  | trim | verse => exact .empty
  | lineBreaks | whitespace | blankLine => exact hr.plain _
  | majorSectionHeading =>
    simp only [Stage.rule, Block.majorHeadingAt]
    rw [hr.choices.suppressLeadingHeading, h.found]
    split
    · exact .empty
    · exact hr.heading (h.group 0).upper
  | sectionHeading => exact hr.heading (h.group 0)
  | paragraph =>
    simp only [Stage.rule, Block.paragraphAt]
    rw [h.found]
    exact ((hr.plain _).append (h.group 0)).append (hr.plain _)
  | poeticLine =>
    simp only [Stage.rule]
    rw [ht]
    exact hr.alike_lineAt h u.text
  | rightAlignedPoeticLine | selah => exact hr.oppositeLine (h.group 0)
  | note => exact hr.alike_noteAt h
  | chapterLabel => exact hr.addStyles (h.group 0) (by decide)

theorem alike_verseLabel (m : VerseMarker) :
    (verseLabel c m).AlikeTo r (verseLabel d m) := by
  rw [verseLabel, verseLabel, hr.choices.breakBeforeVerses]
  split
  · exact (hr.plain _).append (hr.alike_render m)
  · exact hr.alike_render m

theorem alike_verseAt : AlikeRules r (verseAt c) (verseAt d) := by
  intro found o o' h
  rw [verseAt, verseAt, hr.choices.renderVerses, hr.choices.expected,
    (h.group 0).text_eq]
  split
  · split
    · rw [Occurrence.raw, Occurrence.raw, h.tag.text_eq]
      exact ⟨hr.plain _, rfl⟩
    · split
      · exact ⟨.empty, rfl⟩
      · refine ⟨?_, rfl⟩
        simp only
        split
        · exact hr.alike_verseLabel _
        · exact .empty
  · exact ⟨.empty, rfl⟩

theorem alike_missingLabels (found : VerseSet) :
    (missingLabels c found).AlikeTo r (missingLabels d found) := by
  rw [missingLabels, missingLabels, hr.choices.expected]
  generalize d.expected.missing found = ns
  rw [StyledText.AlikeTo, StyledText.chars_concat, StyledText.chars_concat]
  induction ns with
  | nil => exact .nil
  | cons n ns ih =>
    rw [List.map_cons, List.map_cons, List.flatMap_cons, List.flatMap_cons]
    exact Alike.append (hr.alike_render (.single n)) ih

theorem alike_verseOutput (h : t.AlikeTo r u) :
    (verseOutput c t).AlikeTo r (verseOutput d u) := by
  have hout := h.rewritten .verse hr.alike_verseAt ∅
  have hfound := (answers_alike h hr.alike_verseAt ∅ (Tag.Pattern.verse.matches t.text)).2
  rw [verseOutput, verseOutput, hr.choices.renderVerses, ← h.text_eq, ← hfound]
  split
  · exact (hr.alike_missingLabels _).append hout
  · exact hout

/-- **Every stage keeps texts alike.** -/
theorem alike_apply (s : Stage) (h : t.AlikeTo r u) : (s.apply c t).AlikeTo r (s.apply d u) := by
  by_cases hv : s = .verse
  · subst hv
    rw [Stage.apply_verse, Stage.apply_verse]
    exact hr.alike_verseOutput h
  · rw [Stage.apply_eq_replaced hv, Stage.apply_eq_replaced hv]
    exact h.replaced s.pattern fun _ _ ho => hr.alike_rule s h.text_eq ho

/-! ## Renders -/

/-- **Alike texts have alike renders**, in which the same stages complete and the same one is
cancelled. -/
theorem alike_renderWith (stopAfter : Option Stage) (polls : Polls) (asked : Nat)
    (stages : List Stage) (h : t.AlikeTo r u) :
    let left := renderWith c stopAfter polls asked stages t
    let right := renderWith d stopAfter polls asked stages u
    left.text.AlikeTo r right.text ∧ left.completed = right.completed ∧
      left.cancelled = right.cancelled := by
  induction stages generalizing polls asked t u with
  | nil => exact ⟨h, rfl, rfl⟩
  | cons s rest ih =>
    have hcount : s.pollCount u = s.pollCount t := by
      rw [Stage.pollCount, Stage.pollCount, h.text_eq]
    simp only [renderWith, Stage.run_eq, hcount]
    cases polls asked with
    | true => exact ⟨h, rfl, rfl⟩
    | false =>
      by_cases hcalm : (polls.after (asked + 1)).Calm 0 (s.pollCount t)
      · obtain ⟨htext, hcompleted, hcancelled⟩ :=
          ih (if stopAfter = some s then .always true else polls) (asked + 1 + s.pollCount t)
            (hr.alike_apply s h)
        simp only [if_pos hcalm, Bool.false_eq_true, if_false]
        exact ⟨htext, congrArg (s :: ·) hcompleted, hcancelled⟩
      · simp only [if_neg hcalm, Bool.false_eq_true, if_false]
        exact ⟨h, trivial, trivial⟩

end Respected

end Passage
