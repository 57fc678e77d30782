import Passage.Proofs.Layout.Answers
import Passage.Proofs.Note.Shrunk
import Passage.Proofs.Tag.Opening
import Passage.Proofs.Verse.Spelling

/-! Verse tags and notes that can be read, as they are written. With one space for each stretch of
its blanks such a tag is one still, and reads the same but for a note's caller
(`InlineTag.shrink_source_append`). The pattern of its family takes it whole, and no stage of blocks
finds a tag in it. -/

namespace Passage

namespace VerseMarker

variable {m : VerseMarker} {cs : List Char}

theorem Written.shrink {n : Nat} (h : Written n cs) : Written n (Text.shrink cs) := by
  obtain ⟨before, digits, after, rfl, hbefore, hafter, hne, hdigits, hvalue⟩ := h
  have hword : ∀ c ∈ digits, Text.isBlank c = false :=
    fun c hc => Text.isBlank_of_isWhite_eq_false (isWhite_of_isDigit (hdigits c hc))
  exact ⟨_, digits, _, Text.shrink_append_word_append hword hne before after,
    Text.white_shrink hbefore, Text.white_shrink hafter, hne, hdigits, hvalue⟩

theorem spelled_of_parse (h : parse cs = .ok m) : Spelled m cs := by
  simpa [h] using parse_cases cs

/-- Blanks stand around the numbers, and how many there are does not matter. -/
theorem parse_shrink (h : parse cs = .ok m) : parse (Text.shrink cs) = .ok m := by
  cases spelled_of_parse h with
  | single hn => exact parse_of_spelled (.single hn.shrink)
  | range hfirst hlast =>
    rw [Text.shrink_append _ (Tag.stops_cons rfl _), Text.shrink_cons_of_not_blank rfl]
    exact parse_of_spelled (.range hfirst.shrink hlast.shrink)

/-- A written number has digits, white space and a hyphen. -/
theorem not_mem_of_parse {c : Char} (hw : Text.isWhite c = false) (hd : c.isDigit = false)
    (hh : c ≠ '-') (h : parse cs = .ok m) : c ∉ cs := by
  have hwritten {n : Nat} {cs : List Char} (h : Written n cs) : c ∉ cs := by
    obtain ⟨before, digits, after, rfl, hbefore, hafter, -, hdigits, -⟩ := h
    simp only [List.mem_append, not_or]
    refine ⟨fun hc => ?_, fun hc => ?_, fun hc => ?_⟩
    · exact Bool.eq_false_iff.mp hw (hbefore c hc)
    · exact Bool.eq_false_iff.mp hd (hdigits c hc)
    · exact Bool.eq_false_iff.mp hw (hafter c hc)
  cases spelled_of_parse h with
  | single hn => exact hwritten hn
  | range hfirst hlast =>
    simp only [List.mem_append, List.mem_cons, not_or]
    exact ⟨hwritten hfirst, hh, hwritten hlast⟩

end VerseMarker

/-! ## Tags of a family -/

namespace Tag

/-- What is spelled in a family, wherever it stands, is taken by its pattern. -/
theorem Family.takes {f : Family} {parts : List Part}
    (h : ∀ atStart after, f.Spells atStart parts after) :
    f.pattern.Takes (spell parts) (extentFrom 0 parts) where
  ne_nil := (h true []).spell_ne_nil
  length_eq := Nat.zero_add _
  match?_eq atStart rest := f.match?_eq_some_iff.mpr ⟨parts, rest, h atStart rest, rfl, rfl⟩

theorem attributeList_iff {cs : List Char} : AttributeList cs ↔
    (∃ b ∈ cs.head?, Text.isBlank b = true) ∧ '>' ∉ cs := by
  constructor
  · rintro ⟨b, x, hb, hx, rfl⟩
    refine ⟨⟨b, rfl, hb⟩, List.not_mem_cons_of_ne_of_not_mem ?_ hx⟩
    rintro rfl
    cases hb
  · rintro ⟨⟨b, hhead, hb⟩, hnone⟩
    obtain ⟨x, rfl⟩ := List.head?_eq_some_iff.mp hhead
    exact ⟨b, x, hb, List.not_mem_of_not_mem_cons hnone, rfl⟩

theorem AttributeList.shrink {cs : List Char} (h : AttributeList cs) :
    AttributeList (Text.shrink cs) := by
  obtain ⟨⟨b, hhead, hb⟩, hnone⟩ := attributeList_iff.mp h
  have hstart : ¬ Stops Text.isBlank (Text.shrink cs) := by
    rw [Text.stops_shrink_iff]
    intro hstops
    exact Bool.eq_false_iff.mp (hstops b hhead) hb
  refine attributeList_iff.mpr ⟨?_, mt (Text.mem_shrink_of_not_blank rfl).mp hnone⟩
  simpa [Stops] using hstart

end Tag

/-! ## Verse tags -/

/-- A verse tag with a number that can be read. -/
structure VerseTag where
  gap : List Char
  number : List Char
  middle : List Char
  last : List Char
  marker : VerseMarker
  someGap : Tag.SomeBlanks gap
  someMiddle : Tag.SomeBlanks middle
  lastBlanks : Tag.Blanks last
  reads : VerseMarker.parse number = .ok marker

namespace VerseTag

def parts (t : VerseTag) : List Tag.Part :=
  [.plain "<verse".toList, .plain t.gap, .plain "number=\"".toList, .captured t.number,
    .plain ['"'], .plain t.middle, .plain "style=\"v\"".toList, .plain t.last, .plain "/>".toList]

def source (t : VerseTag) : List Char :=
  Tag.spell t.parts

def shrunk (t : VerseTag) : VerseTag where
  gap := [' ']
  number := Text.shrink t.number
  middle := [' ']
  last := Text.shrink t.last
  marker := t.marker
  someGap := ⟨List.cons_ne_nil _ _, Tag.isBlank_of_mem_space⟩
  someMiddle := ⟨List.cons_ne_nil _ _, Tag.isBlank_of_mem_space⟩
  lastBlanks := Text.blanks_shrink_iff.mpr t.lastBlanks
  reads := VerseMarker.parse_shrink t.reads

variable (t : VerseTag)

theorem source_eq : t.source = "<verse".toList ++ (t.gap ++ ("number=\"".toList ++ (t.number ++
    (['"'] ++ (t.middle ++ ("style=\"v\"".toList ++ (t.last ++ "/>".toList))))))) := by
  simp [source, parts]

theorem shrink_source_append (cs : List Char) :
    Text.shrink (t.source ++ cs) = t.shrunk.source ++ Text.shrink cs := by
  have hgap := Text.shrink_of_blanks t.someGap.ne_nil t.someGap.blanks
  have hmiddle := Text.shrink_of_blanks t.someMiddle.ne_nil t.someMiddle.blanks
  have hword (w x y : List Char) (hne : w.isEmpty = false) (hw : w.all (!Text.isBlank ·) = true) :
      Text.shrink (x ++ (w ++ y)) = Text.shrink x ++ (w ++ Text.shrink y) :=
    Text.shrink_append_word_append (Text.noBlank_of_all hw) (List.isEmpty_eq_false_iff.mp hne) x y
  simp only [source_eq, List.append_assoc]
  rw [Text.shrink_word_append (Text.noBlank_of_all rfl), hword "number=\"".toList _ _ rfl rfl,
    hword ['"'] _ _ rfl rfl, hword "style=\"v\"".toList _ _ rfl rfl,
    hword "/>".toList _ _ rfl rfl, hgap, hmiddle]
  rfl

theorem spells (atStart : Bool) (after : List Char) :
    Tag.Family.verse.Spells atStart t.parts after :=
  .verse t.someGap (VerseMarker.not_mem_of_parse rfl rfl (by decide) t.reads) t.someMiddle
    t.lastBlanks

theorem takes : Tag.Pattern.verse.Takes t.source (Tag.extentFrom 0 t.parts) :=
  Tag.Family.takes t.spells

/-- What is captured of the tag is the number. -/
theorem group_number (styles : StyleSet) (offset : Nat) :
    Occurrence.group ⟨⟨offset, Tag.extentFrom 0 t.parts⟩, .styled t.source styles⟩ 0 =
      .styled t.number styles := by
  have hsource : t.source = "<verse".toList ++ t.gap ++ "number=\"".toList ++ t.number ++
      (['"'] ++ (t.middle ++ ("style=\"v\"".toList ++ (t.last ++ "/>".toList)))) := by
    simp [source_eq]
  rw [hsource]
  refine Occurrence.group_styled ?_
  simp [Tag.extentFrom, Tag.capturesFrom, parts]
  omega

/-- The tag starts with its name, and no other tag starts in it. -/
theorem exists_source_eq : ∃ tail, t.source = '<' :: 'v' :: tail ∧ '<' ∉ tail := by
  have hblanks {cs : List Char} (h : Tag.Blanks cs) : '<' ∉ cs := by
    intro hc
    cases h _ hc
  have hnumber := VerseMarker.not_mem_of_parse (c := '<') rfl rfl (by decide) t.reads
  have hgap := hblanks t.someGap.blanks
  have hmiddle := hblanks t.someMiddle.blanks
  have hlast := hblanks t.lastBlanks
  refine ⟨"erse".toList ++ (t.gap ++ ("number=\"".toList ++ (t.number ++ (['"'] ++ (t.middle ++
    ("style=\"v\"".toList ++ (t.last ++ "/>".toList))))))), t.source_eq, ?_⟩
  simp [hgap, hnumber, hmiddle, hlast]

/-- No tag of another name starts in it. -/
theorem free {k : Char} (hk : k ≠ 'v') : Document.Free k t.source := by
  obtain ⟨tail, hsource, htail⟩ := t.exists_source_eq
  rw [hsource]
  exact .cons_tag (.of_noTag (List.not_mem_cons_of_ne_of_not_mem (by decide) htail)) hk

end VerseTag

/-! ## Notes -/

/-- Each `<` of the text is that of an opening or a closing tag of an element. -/
def ElementTags : List Char → Prop
  | [] => True
  | c :: cs => (c = '<' → "char".toList <+: cs ∨ "/char>".toList <+: cs) ∧ ElementTags cs

namespace ElementTags

variable {cs : List Char}

instance decidable : (cs : List Char) → Decidable (ElementTags cs)
  | [] => .isTrue trivial
  | c :: cs =>
    have := decidable cs
    inferInstanceAs (Decidable ((c = '<' → _ ∨ _) ∧ ElementTags cs))

theorem shrink (h : ElementTags cs) : ElementTags (Text.shrink cs) := by
  have hword {w cs : List Char} (hw : w.all (!Text.isBlank ·) = true) (h : w <+: cs) :
      w <+: Text.shrink cs := by
    obtain ⟨rest, rfl⟩ := h
    exact ⟨Text.shrink rest, (Text.shrink_word_append (Text.noBlank_of_all hw) rest).symm⟩
  induction cs using Text.blank_induction with
  | nil => trivial
  | char c cs hc ih =>
    rw [Text.shrink_cons_of_not_blank hc]
    exact ⟨fun he => (h.1 he).imp (hword rfl) (hword rfl), ih h.2⟩
  | last c cs hc hcs ih =>
    rw [Text.shrink_cons_of_blank hc hcs]
    exact ⟨fun he => absurd he (by decide), ih h.2⟩
  | more c d cs hc hd ih =>
    rw [Text.shrink_cons_cons hc hd]
    exact ih h.2

/-- What starts like a tag but is read from no tag of an element starts nowhere. -/
theorem nowhere {l : List Char} (h : ElementTags cs)
    (hopening : ∀ rest, Text.dropLiteral? ('<' :: l) ("<char".toList ++ rest) = none)
    (hclosing : ∀ rest, Text.dropLiteral? ('<' :: l) ("</char>".toList ++ rest) = none) :
    Tag.Nowhere (Text.dropLiteral? ('<' :: l)) cs := by
  induction cs with
  | nil => trivial
  | cons c cs ih =>
    refine ⟨fun rest => ?_, ih h.2⟩
    by_cases hc : c = '<'
    · -- an element's tag starts here, and with it not the literal
      rcases h.1 hc with ⟨more, rfl⟩ | ⟨more, rfl⟩
      · rw [hc, List.append_assoc]
        exact hopening (more ++ rest)
      · rw [hc, List.append_assoc]
        exact hclosing (more ++ rest)
    · exact if_neg (Ne.symm hc)

end ElementTags

/-- A note that can be read, with no `<` but those of its tags and its elements' tags. -/
structure NoteTag where
  attributes : List Char
  body : List Char
  marker : NoteMarker
  list : Tag.AttributeList attributes
  noTag : '<' ∉ attributes
  elements : ElementTags body
  reads : NoteMarker.parse attributes body = .ok marker

namespace NoteTag

def parts (t : NoteTag) : List Tag.Part :=
  [.plain "<note".toList, .captured t.attributes, .plain ['>'], .captured t.body,
    .plain "</note>".toList]

def source (t : NoteTag) : List Char :=
  Tag.spell t.parts

def shrunk (t : NoteTag) : NoteTag where
  attributes := Text.shrink t.attributes
  body := Text.shrink t.body
  marker := { t.marker with caller := Text.shrink t.marker.caller }
  list := t.list.shrink
  noTag := mt (Text.mem_shrink_of_not_blank rfl).mp t.noTag
  elements := t.elements.shrink
  reads := NoteMarker.parse_shrink t.reads

variable (t : NoteTag)

theorem source_eq : t.source = "<note".toList ++ (t.attributes ++ (['>'] ++ (t.body ++
    "</note>".toList))) := by
  simp [source, parts]

theorem shrink_source_append (cs : List Char) :
    Text.shrink (t.source ++ cs) = t.shrunk.source ++ Text.shrink cs := by
  have hend : ∀ c ∈ "</note>".toList, Text.isBlank c = false := Text.noBlank_of_all rfl
  simp only [source_eq, List.append_assoc]
  rw [Text.shrink_word_append (Text.noBlank_of_all rfl),
    Text.shrink_append_word_append (w := ['>']) (Text.noBlank_of_all rfl) (List.cons_ne_nil _ _),
    Text.shrink_append_word_append hend (List.cons_ne_nil _ _)]
  rfl

theorem endsFirst : Tag.EndsFirst "</note>".toList t.body := by
  have hnowhere : Tag.Nowhere (Text.dropLiteral? "</note>".toList) t.body :=
    t.elements.nowhere (fun _ => rfl) fun _ => rfl
  exact .of_beforeLiteral? (Tag.beforeLiteral?_append hnowhere (List.cons_ne_nil _ _) [])

theorem spells (atStart : Bool) (after : List Char) :
    Tag.Family.note.Spells atStart t.parts after :=
  .note t.list t.endsFirst

theorem takes : Tag.Pattern.note.Takes t.source (Tag.extentFrom 0 t.parts) :=
  Tag.Family.takes t.spells

/-- What is captured of the note are its attribute list and its body, and so it is read. -/
theorem noteAt_eq (styles : StyleSet) (offset : Nat) :
    noteAt ⟨⟨offset, Tag.extentFrom 0 t.parts⟩, .styled t.source styles⟩ = t.marker.render := by
  have hlist : t.source = "<note".toList ++ t.attributes ++ (['>'] ++ (t.body ++
      "</note>".toList)) := by
    simp [source_eq]
  have hbody : t.source = "<note".toList ++ t.attributes ++ ['>'] ++ t.body ++
      "</note>".toList := by
    simp [source_eq]
  have hfirst : Occurrence.group
      ⟨⟨offset, Tag.extentFrom 0 t.parts⟩, .styled t.source styles⟩ 0 =
        .styled t.attributes styles := by
    rw [hlist]
    refine Occurrence.group_styled ?_
    simp [Tag.extentFrom, Tag.capturesFrom, parts]
    omega
  have hsecond : Occurrence.group
      ⟨⟨offset, Tag.extentFrom 0 t.parts⟩, .styled t.source styles⟩ 1 =
        .styled t.body styles := by
    rw [hbody]
    refine Occurrence.group_styled ?_
    simp [Tag.extentFrom, Tag.capturesFrom, parts]
    omega
  rw [noteAt, hfirst, hsecond, StyledText.text_styled, StyledText.text_styled, t.reads]

/-- What starts like a tag but is read from no tag of the note starts nowhere in it. -/
theorem nowhere {l : List Char}
    (hname : ∀ rest, Text.dropLiteral? ('<' :: l) ("<note".toList ++ rest) = none)
    (hopening : ∀ rest, Text.dropLiteral? ('<' :: l) ("<char".toList ++ rest) = none)
    (hclosing : ∀ rest, Text.dropLiteral? ('<' :: l) ("</char>".toList ++ rest) = none)
    (hend : ∀ rest, Text.dropLiteral? ('<' :: l) ("</note>".toList ++ rest) = none) :
    Tag.Nowhere (Text.dropLiteral? ('<' :: l)) t.source := by
  have hlist : '<' ∉ "note".toList ++ (t.attributes ++ ['>']) := by
    simp [t.noTag]
  have hfirst : Tag.Nowhere (Text.dropLiteral? ('<' :: l))
      ('<' :: ("note".toList ++ (t.attributes ++ ['>']))) := by
    refine ⟨fun rest => ?_, .of_not_mem hlist⟩
    rw [List.append_assoc]
    exact hname _
  have hlast : Tag.Nowhere (Text.dropLiteral? ('<' :: l)) "</note>".toList :=
    ⟨hend, .of_not_mem (x := "/note>".toList) (by decide)⟩
  have hsource : t.source = '<' :: ("note".toList ++ (t.attributes ++ ['>'])) ++
      (t.body ++ "</note>".toList) := by
    simp [source_eq]
  rw [hsource]
  exact hfirst.append ((t.elements.nowhere hopening hclosing).append hlast)

end NoteTag

/-! ## Inline tags -/

inductive InlineTag
  | verse (t : VerseTag)
  | note (t : NoteTag)

namespace InlineTag

def source : InlineTag → List Char
  | verse t => t.source
  | note t => t.source

def shrunk : InlineTag → InlineTag
  | verse t => .verse t.shrunk
  | note t => .note t.shrunk

variable (t : InlineTag)

theorem shrink_source_append (cs : List Char) :
    Text.shrink (t.source ++ cs) = t.shrunk.source ++ Text.shrink cs := by
  cases t with
  | verse t => exact t.shrink_source_append cs
  | note t => exact t.shrink_source_append cs

theorem exists_source_eq : ∃ tail, t.source = '<' :: tail := by
  cases t with
  | verse t => exact ⟨_, t.source_eq⟩
  | note t => exact ⟨_, t.source_eq⟩

/-- No block starts or ends in the tag. -/
theorem free_block : Document.Free 'p' t.source := by
  cases t with
  | verse t => exact t.free (by decide)
  | note t => exact t.nowhere (fun _ => rfl) (fun _ => rfl) (fun _ => rfl) fun _ => rfl

theorem nowhere_blockEnd : Tag.Nowhere (Text.dropLiteral? Tag.blockEnd) t.source := by
  cases t with
  | verse t => exact (t.free (k := '/') (by decide)).dropLiteral? "para>".toList
  | note t => exact t.nowhere (fun _ => rfl) (fun _ => rfl) (fun _ => rfl) fun _ => rfl

end InlineTag

end Passage
