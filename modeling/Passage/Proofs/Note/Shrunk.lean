import Passage.Proofs.Note.Marker
import Passage.Proofs.Text.Shrink

/-! Notes with their blanks shrunk. The stages of blanks come before the one of notes, so a note is
read with one space for each stretch of blanks. It is the same note, but for its caller, which is
shrunk as well (`NoteMarker.parse_shrink`): its style is a word, and of its reference and its text
the white space is squeezed in any case. -/

namespace Passage

/-! ## Attribute lists -/

namespace NoteAttribute

open Tag (Stops stops_cons)

def shrunk (a : NoteAttribute) : NoteAttribute :=
  ⟨a.key, Text.shrink a.value⟩

variable {items : List NoteAttribute} {cs : List Char}

theorem noBlank_of_isKeyChar {key : List Char} (h : ∀ c ∈ key, isKeyChar c = true) :
    ∀ c ∈ key, Text.isBlank c = false :=
  fun c hc => Text.isBlank_of_isWhite_eq_false (isWhite_of_isKeyChar (h c hc))

/-- The space between two items is counted to the second one. -/
theorem Items.shrink_append (h : Items items cs) (hne : items ≠ []) {gap : List Char}
    (hgap : White gap) : Items (items.map shrunk) (Text.shrink (gap ++ cs)) := by
  induction h generalizing gap with
  | nil => exact absurd rfl hne
  | @cons a items x cs ha h ih =>
    obtain ⟨hbefore, hkeyne, hkey, hvalue, hafter⟩ := ha
    rename_i before after
    have hfront : White (Text.shrink (gap ++ before)) :=
      Text.white_shrink (List.forall_mem_append.mpr ⟨hgap, hbefore⟩)
    have hquote : '"' ∉ a.shrunk.value := mt (Text.mem_shrink_of_not_blank rfl).mp hvalue
    have hequals : ∀ c ∈ "=\"".toList, Text.isBlank c = false := Text.noBlank_of_all rfl
    have hitem : Text.shrink (gap ++ (before ++
        (a.key ++ ("=\"".toList ++ (a.value ++ ('"' :: after)))) ++ cs)) =
        Text.shrink (gap ++ before) ++ (a.key ++ ("=\"".toList ++ (Text.shrink a.value ++
          ('"' :: Text.shrink (after ++ cs))))) := by
      simp only [List.append_assoc, List.cons_append]
      rw [← List.append_assoc, Text.shrink_append_word_append (noBlank_of_isKeyChar hkey) hkeyne,
        Text.shrink_word_append hequals, Text.shrink_append a.value (stops_cons rfl _),
        Text.shrink_cons_of_not_blank rfl]
    rw [hitem]
    have hspells {after : List Char} (hafter : White after) : a.shrunk.Spells _ :=
      .mk hfront hkeyne hkey hquote hafter
    cases h with
    | nil =>
      have hitems := Items.cons (hspells (Text.white_shrink hafter)) .nil
      rwa [List.append_nil] at hitems ⊢
    | cons hb hrest =>
      have hitems := Items.cons (hspells (List.forall_mem_nil _))
        (ih (List.cons_ne_nil _ _) hafter)
      simp only [List.append_assoc, List.cons_append, List.nil_append] at hitems
      exact hitems

theorem Items.shrink (h : Items items cs) : Items (items.map shrunk) (Text.shrink cs) := by
  cases h with
  | nil => exact .nil
  | cons ha h =>
    exact (Items.cons ha h).shrink_append (List.cons_ne_nil _ _) (List.forall_mem_nil _)

theorem value?_shrunk (items : List NoteAttribute) (key : String) :
    value? (items.map shrunk) key = (value? items key).map Text.shrink := by
  rw [value?, value?, List.find?_map, Option.map_map, Option.map_map]
  rfl

/-- The characters of a value stand in the list. -/
theorem Items.value_subset (h : Items items cs) {a : NoteAttribute} (ha : a ∈ items) :
    a.value ⊆ cs := by
  induction h with
  | nil => cases ha
  | @cons b items x cs hb _ ih =>
    rcases List.mem_cons.mp ha with rfl | ha
    · obtain ⟨⟩ := hb
      intro c hc
      simp [hc]
    · exact List.subset_append_of_subset_right x (ih ha)

end NoteAttribute

/-! ## Bodies -/

namespace NoteSegment

open NoteAttribute (value?)

def shrunk : NoteSegment → NoteSegment
  | text cs => text (Text.shrink cs)
  | element style cs => element (Text.shrink style) (Text.shrink cs)

variable {segments : List NoteSegment} {cs : List Char}

theorem content_shrunk (s : NoteSegment) : s.shrunk.content = Text.shrink s.content := by
  cases s <;> rfl

/-- The styles of references are words. -/
theorem isReference_shrunk (s : NoteSegment) : s.shrunk.isReference = s.isReference := by
  have hword (style : List Char) {word : List Char} (hword : ∀ c ∈ word, Text.isBlank c = false) :
      decide (Text.shrink style = word) = decide (style = word) := by
    refine decide_eq_decide.mpr ⟨Text.eq_of_shrink_eq hword, ?_⟩
    rintro rfl
    exact Text.shrink_of_noBlank hword
  have hfr : ∀ c ∈ "fr".toList, Text.isBlank c = false := Text.noBlank_of_all rfl
  have hxo : ∀ c ∈ "xo".toList, Text.isBlank c = false := Text.noBlank_of_all rfl
  cases s with
  | text cs => rfl
  | element style cs =>
    rw [isReference, shrunk, isReference, hword style hfr, hword style hxo]

/-- Text before a body, which is a segment of its own if it is not empty. -/
theorem Body.exists_append (h : Body segments cs) {x : List Char} (hx : '<' ∉ x) :
    ∃ more, Body more (x ++ cs) ∧ more.filter isReference = segments.filter isReference ∧
      plainText more = x ++ plainText segments := by
  by_cases hne : x = []
  · subst hne
    exact ⟨segments, h, rfl, rfl⟩
  · exact ⟨.text x :: segments, .text hne hx h, rfl, plainText_cons _ _⟩

/-- A body with its blanks shrunk, behind text that is shrunk together with it: so texts that meet
need not be told apart. -/
theorem Body.exists_shrink_append (h : Body segments cs) {x : List Char} (hx : '<' ∉ x) :
    ∃ more, Body more (Text.shrink (x ++ cs)) ∧
      more.filter isReference = (segments.filter isReference).map shrunk ∧
      Text.SameWords (plainText more) (x ++ plainText segments) := by
  have hshrunk {x : List Char} (hx : '<' ∉ x) : '<' ∉ Text.shrink x :=
    mt (Text.mem_shrink_of_not_blank rfl).mp hx
  -- `x` holds the texts that have met since the last element
  induction h generalizing x with
  | nil =>
    obtain ⟨more, hbody, href, hplain⟩ := Body.nil.exists_append (hshrunk hx)
    rw [List.append_nil] at hbody
    rw [List.append_nil]
    refine ⟨more, hbody, href, ?_⟩
    rw [hplain]
    exact (Text.sameWords_shrink x).append (.refl [])
  | @text y segments cs hne hy h ih =>
    rw [← List.append_assoc, plainText_cons, ← List.append_assoc]
    exact ih (List.not_mem_append hx hy)
  | @element items list style y segments cs hlist hstyle hy h ih =>
    obtain ⟨more, hbody, href, hwords⟩ := ih (x := []) List.not_mem_nil
    have hstyle : value? (items.map NoteAttribute.shrunk) "style" = some (Text.shrink style) := by
      rw [NoteAttribute.value?_shrunk, hstyle, Option.map_some]
    obtain ⟨all, hall, hallref, hplain⟩ :=
      (Body.element hlist.shrink hstyle (hshrunk hy) hbody).exists_append (hshrunk hx)
    have hsame : isReference (.element (Text.shrink style) (Text.shrink y)) =
        isReference (.element style y) := isReference_shrunk (.element style y)
    have hopening : ∀ c ∈ "<char".toList, Text.isBlank c = false := Text.noBlank_of_all rfl
    have hend : ∀ c ∈ "</char>".toList, Text.isBlank c = false := Text.noBlank_of_all rfl
    refine ⟨all, ?_, ?_, ?_⟩
    · rwa [Text.shrink_append_word_append hopening (List.cons_ne_nil _ _),
        Text.shrink_append list (Tag.stops_cons rfl _), Text.shrink_cons_of_not_blank rfl,
        Text.shrink_append_word_append hend (List.cons_ne_nil _ _)]
    · rw [hallref, List.filter_cons, List.filter_cons, hsame, href]
      split <;> rfl
    · rw [hplain, plainText_cons, plainText_cons, hsame]
      refine (Text.sameWords_shrink x).append (.append ?_ hwords)
      split
      · exact .refl []
      · exact Text.sameWords_shrink y

end NoteSegment

/-! ## Notes -/

namespace NoteMarker

open NoteSegment (isReference plainText)

theorem lastReference_of_shrunk {segments more : List NoteSegment}
    (h : more.filter isReference = (segments.filter isReference).map NoteSegment.shrunk) :
    lastReference more = (lastReference segments).map NoteSegment.shrunk := by
  have hany (s : NoteSegment) :
      (s.shrunk.content.any (!Text.isWhite ·)) = s.content.any (!Text.isWhite ·) := by
    rw [NoteSegment.content_shrunk, Text.any_shrink]
  rw [lastReference_eq, lastReference_eq, h, List.filter_map, List.getLast?_map]
  simp only [Function.comp_def, hany]

theorem shrink_of_ofStyle? {style : List Char} {kind : NoteKind}
    (h : NoteKind.ofStyle? style = some kind) : Text.shrink style = style := by
  refine Text.shrink_of_noBlank (Text.noBlank_of_all ?_)
  have hmem := NoteKind.ofStyle?_eq_some_iff.mp h
  simp only [List.mem_cons, List.not_mem_nil, or_false, Prod.mk.injEq] at hmem
  rw [← String.toList_ofList (l := style)]
  rcases hmem with ⟨h, -⟩ | ⟨h, -⟩ | ⟨h, -⟩ | ⟨h, -⟩ | ⟨h, -⟩ <;> rw [h] <;> rfl

variable {attributes body : List Char} {n : NoteMarker}

/-- **A note is the same with its blanks shrunk**, and so is its caller. -/
theorem parse_shrink (h : parse attributes body = .ok n) :
    parse (Text.shrink attributes) (Text.shrink body) =
      .ok { n with caller := Text.shrink n.caller } := by
  obtain ⟨items, style, kind, caller, segments, hitems, hstyle, hkind, hcaller, hsegments, htext,
    rfl⟩ := parse_eq_ok_iff_read.mp h
  obtain ⟨more, hbody, href, hwords⟩ :=
    (NoteSegment.body_of_readAll? hsegments).exists_shrink_append (x := []) List.not_mem_nil
  obtain ⟨read, hread, hsame⟩ := hbody.exists_readAll?
  have hsqueeze : textOf read = textOf segments := by
    have hplain : textOf read = Text.squeeze (plainText more) := congrArg Text.squeeze hsame.text
    rw [hplain, hwords.squeeze_eq]
    rfl
  have hreference : referenceOf read = referenceOf segments := by
    rw [referenceOf_eq, referenceOf_eq, lastReference_congr hsame, lastReference_of_shrunk href,
      Option.map_map]
    congr 1
    funext s
    rw [Function.comp_apply, NoteSegment.content_shrunk, (Text.sameWords_shrink _).squeeze_eq]
  refine parse_eq_ok_iff_read.mpr ⟨items.map NoteAttribute.shrunk, style, kind, Text.shrink caller,
    read, ?_, ?_, hkind, ?_, hread, ?_, ?_⟩
  · exact NoteAttribute.readAll?_eq_some_iff.mpr
      (NoteAttribute.readAll?_eq_some_iff.mp hitems).shrink
  · rw [NoteAttribute.value?_shrunk, hstyle, Option.map_some, shrink_of_ofStyle? hkind]
  · rw [NoteAttribute.value?_shrunk, hcaller, Option.map_some]
  · rwa [hsqueeze]
  · rw [hreference, hsqueeze]

/-- The caller stands in the attribute list. -/
theorem caller_subset (h : parse attributes body = .ok n) : n.caller ⊆ attributes := by
  obtain ⟨items, style, kind, caller, segments, hitems, -, -, hcaller, -, -, rfl⟩ :=
    parse_eq_ok_iff_read.mp h
  obtain ⟨a, ha, rfl⟩ := Option.map_eq_some_iff.mp hcaller
  exact (NoteAttribute.readAll?_eq_some_iff.mp hitems).value_subset (List.mem_of_find?_eq_some ha)

end NoteMarker

end Passage
