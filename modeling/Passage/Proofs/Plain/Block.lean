import Passage.Proofs.Layout.Poetry
import Passage.Proofs.Text.Shrink

/-! Plain blocks, printed one after the other: headings, paragraphs and lines of poetry whose
content is text without tags. What stands before and after the content of a block depends on the
kind of the block before it and on the blocks that follow (`lead`, `trail`). Between two stages the
blocks whose stages have run are laid out and the others stand as they were printed (`forms`). -/

namespace Passage.Plain

open Document (para tagStages)

/-- The kinds of blocks. A poetic line is printed with its level in digits. -/
inductive Kind
  | majorHeading
  | heading
  | paragraph
  | poeticLine (digits : List Char) (ne_nil : digits ≠ [])
      (decimal : ∀ c ∈ digits, Text.isDecimalDigit c = true)
  | oppositeLine

namespace Kind

/-- A poetic line with its level in the usual digits. -/
def poetry (level : Nat) : Kind :=
  .poeticLine (Text.decimal level) (VerseMarker.decimal_ne_nil level)
    fun _ hc => Document.isDecimalDigit_of_mem_decimal hc

def style : Kind → List Char
  | majorHeading => ['m', 's']
  | heading => ['s']
  | paragraph => ['p']
  | poeticLine digits .. => 'q' :: digits
  | oppositeLine => ['q', 'r']

def stage : Kind → Stage
  | majorHeading => .majorSectionHeading
  | heading => .sectionHeading
  | paragraph => .paragraph
  | poeticLine .. => .poeticLine
  | oppositeLine => .rightAlignedPoeticLine

def isHeading : Kind → Bool
  | majorHeading | heading => true
  | _ => false

/-- Whether the block brings no line break of its own to its end. -/
def isOpen : Kind → Bool
  | poeticLine .. | oppositeLine => true
  | _ => false

theorem styledAs (k : Kind) : Document.StyledAs k.stage k.style := by
  cases k with
  | majorHeading => exact .majorSectionHeading
  | heading => exact .sectionHeading
  | paragraph => exact .paragraph
  | poeticLine _ ne_nil decimal => exact .poeticLine ne_nil decimal
  | oppositeLine => exact .rightAlignedPoeticLine

end Kind

/-- A block with text that has no tags and does not begin with a blank. -/
structure Block where
  kind : Kind
  content : List Char
  ne_nil : content ≠ []
  noTag : '<' ∉ content
  head : ∀ c ∈ content.head?, Text.isBlank c = false

def Block.source (b : Block) : List Char :=
  para b.kind.style b.content

def source (bs : List Block) : List Char :=
  bs.flatMap Block.source

/-! ## Layout -/

/-- What stands before the content of a block, which is the first or comes after a block of kind
`prev`. -/
def lead (prev : Option Kind) : Kind → List Char
  | .majorHeading | .heading => []
  | .paragraph => if prev.isSome then '\n' :: Passage.Block.indent else Passage.Block.indent
  | .poeticLine digits .. =>
    (if prev.any Kind.isOpen then ['\n'] else []) ++ List.replicate (4 * Poetry.level digits) ' '
  | .oppositeLine => ['\n']

/-- What stands after the content of a block, before the blocks of `rest`. -/
def trail (rest : List Block) : Kind → List Char
  | .majorHeading | .heading | .paragraph => ['\n']
  | .poeticLine .. =>
    if rest.head?.any (·.kind.isHeading) && rest.any (·.kind.isOpen) then ['\n'] else []
  | .oppositeLine => []

theorem mem_lead {c : Char} {prev : Option Kind} {k : Kind} (h : c ∈ lead prev k) :
    c = ' ' ∨ c = '\n' := by
  cases k with
  | majorHeading | heading => cases h
  | paragraph =>
    have hindent : Passage.Block.indent = List.replicate 4 ' ' := rfl
    rw [lead, hindent] at h
    split at h
    · rcases List.mem_cons.mp h with h | h
      · exact .inr h
      · exact .inl (List.eq_of_mem_replicate h)
    · exact .inl (List.eq_of_mem_replicate h)
  | poeticLine =>
    rw [lead, List.mem_append] at h
    rcases h with h | h
    · split at h
      · exact .inr (List.mem_singleton.mp h)
      · cases h
    · exact .inl (List.eq_of_mem_replicate h)
  | oppositeLine => exact .inr (List.mem_singleton.mp h)

theorem mem_trail {c : Char} {rest : List Block} {k : Kind} (h : c ∈ trail rest k) : c = '\n' := by
  cases k with
  | majorHeading | heading | paragraph => exact List.mem_singleton.mp h
  | poeticLine =>
    rw [trail] at h
    split at h
    · exact List.mem_singleton.mp h
    · cases h
  | oppositeLine => cases h

/-- The content of a block of a kind, under its styles. -/
def dress : Kind → StyledText → StyledText
  | .majorHeading, t => (t.mapText Text.upper).addStyles Passage.Block.headingStyles
  | .heading, t => t.addStyles Passage.Block.headingStyles
  | .paragraph, t => t
  | .poeticLine .., t => t.addStyles [.normal]
  | .oppositeLine, t => t.addStyles Passage.Block.oppositeStyles

namespace Block

/-- The characters that the content is shown with. -/
def shown (b : Block) : List Char :=
  match b.kind with
  | .majorHeading => Text.upper b.content
  | _ => b.content

def laid (prev : Option Kind) (rest : List Block) (b : Block) : StyledText :=
  .plain (lead prev b.kind) ++ dress b.kind (.plain b.content) ++ .plain (trail rest b.kind)

/-- A block when the stages of `ran` have run. -/
def form (ran : List Stage) (prev : Option Kind) (rest : List Block) (b : Block) : StyledText :=
  if b.kind.stage ∈ ran then b.laid prev rest else .plain b.source

variable {ran : List Stage} {s : Stage} {prev : Option Kind} {rest : List Block} {b : Block}

theorem form_append_of_ne (h : b.kind.stage ≠ s) (prev : Option Kind) (rest : List Block) :
    b.form (ran ++ [s]) prev rest = b.form ran prev rest := by
  simp [form, h]

theorem form_append_of_eq (h : b.kind.stage = s) (prev : Option Kind) (rest : List Block) :
    b.form (ran ++ [s]) prev rest = b.laid prev rest := by
  simp [form, h]

theorem text_laid (prev : Option Kind) (rest : List Block) (b : Block) :
    (b.laid prev rest).text = lead prev b.kind ++ b.shown ++ trail rest b.kind := by
  have hdress : (dress b.kind (.plain b.content)).text = b.shown := by
    unfold shown
    cases b.kind <;> simp [dress, StyledText.addStyles_plain, StyledText.mapText_upper_plain]
  rw [laid, StyledText.text_append, StyledText.text_append, StyledText.text_plain,
    StyledText.text_plain, hdress]

theorem noTag_shown (b : Block) : '<' ∉ b.shown := by
  unfold shown
  split
  · exact Document.noTag_upper b.noTag
  · exact b.noTag

/-- What is shown begins with a character that is no blank. -/
theorem exists_shown (b : Block) : ∃ c cs, b.shown = c :: cs ∧ Text.isBlank c = false := by
  obtain ⟨c, cs, hcs⟩ := List.exists_cons_of_ne_nil b.ne_nil
  have hc : Text.isBlank c = false := b.head c (by rw [hcs]; rfl)
  unfold shown
  split
  · obtain ⟨d, ds, hd⟩ := List.exists_cons_of_ne_nil (Text.upperChar_ne_nil c)
    refine ⟨d, ds ++ Text.upper cs, ?_, Text.isBlank_of_mem_upperChar (by simp [hd]) hc⟩
    rw [hcs, Text.upper, List.flatMap_cons, hd]
    rfl
  · exact ⟨c, cs, hcs, hc⟩

theorem noTag_text_laid (prev : Option Kind) (rest : List Block) (b : Block) :
    '<' ∉ (b.laid prev rest).text := by
  rw [text_laid, List.mem_append, List.mem_append]
  rintro ((h | h) | h)
  · rcases mem_lead h with h | h <;> cases h
  · exact b.noTag_shown h
  · cases mem_trail h

/-- A stage finds no tag in the blocks of other stages. -/
theorem quiet_form (hs : s ∈ tagStages) (h : b.kind.stage ≠ s) :
    s.pattern.Quiet (b.form ran prev rest).text := by
  unfold form
  split
  · exact Document.quiet_of_free hs (.of_noTag (noTag_text_laid prev rest b))
  · rw [StyledText.text_plain]
    exact Document.quiet_para hs b.kind.styledAs h (.of_noTag b.noTag)

end Block

/-- Blocks one after the other, after a block of kind `prev`, when the stages of `ran` have run. -/
def forms (ran : List Stage) (prev : Option Kind) : List Block → StyledText
  | [] => ∅
  | b :: rest => b.form ran prev rest ++ forms ran (some b.kind) rest

theorem forms_nil (prev : Option Kind) (bs : List Block) :
    forms [] prev bs = .plain (source bs) := by
  induction bs generalizing prev with
  | nil => rfl
  | cons b bs ih =>
    rw [forms, ih, Block.form, if_neg List.not_mem_nil, StyledText.eq_iff_chars]
    simp [source]

theorem quiet_forms {ran : List Stage} {s : Stage} (hs : s ∈ tagStages) {bs : List Block}
    (h : ∀ b ∈ bs, b.kind.stage ≠ s) (prev : Option Kind) :
    s.pattern.Quiet (forms ran prev bs).text := by
  induction bs generalizing prev with
  | nil => exact fun _ => trivial
  | cons b bs ih =>
    obtain ⟨hb, hbs⟩ := List.forall_mem_cons.mp h
    rw [forms, StyledText.text_append]
    exact (Block.quiet_form hs hb).append (ih hbs _)

end Passage.Plain
