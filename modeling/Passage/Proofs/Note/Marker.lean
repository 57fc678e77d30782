import Passage.Note.Marker
import Passage.Proofs.Note.Body
import Passage.Proofs.Text.Words

/-! The grammar of notes. A note is read exactly where its attribute list and its body are spelled
by the grammar, its style names a kind, it has a caller, and it has text; and what is read is what
the grammar says of any spelling (`parse_eq_ok_iff`). -/

namespace Passage

theorem Text.squeeze_eq_nil_iff {cs : List Char} :
    squeeze cs = [] ↔ ∀ c ∈ cs, isWhite c = true := by
  have hwords : words cs = [] ↔ ∀ c ∈ cs, isWhite c = true := wordsBy_eq_nil_iff
  rw [← hwords, squeeze]
  constructor
  · intro h
    cases hw : words cs with
    | nil => rfl
    | cons w ws =>
      have hne : w ≠ [] := ne_nil_of_mem_words (hw ▸ List.mem_cons_self)
      rw [hw] at h
      cases ws with
      | nil => exact absurd (List.intercalate_singleton.symm.trans h) hne
      | cons v ws =>
        rw [List.intercalate_cons_cons] at h
        simp at h
  · intro h
    rw [h]
    rfl

theorem NoteKind.ofStyle?_eq_some_iff {style : List Char} {kind : NoteKind} :
    NoteKind.ofStyle? style = some kind ↔
      (String.ofList style, kind) ∈ [("f", footnote), ("fe", endnote), ("ef", endnote),
        ("x", crossReference), ("ex", crossReference)] := by
  rw [ofStyle?]
  split <;> cases kind <;> simp_all

namespace NoteMarker

open NoteAttribute (Items value?)
open NoteSegment (Body plainText)

/-- The last reference that is not white space alone. -/
def lastReference (segments : List NoteSegment) : Option NoteSegment :=
  (segments.filter fun s => s.isReference && s.content.any (!Text.isWhite ·)).getLast?

theorem referenceOf_eq (segments : List NoteSegment) :
    referenceOf segments = (lastReference segments).map fun s => Text.squeeze s.content := by
  have hblank (s : NoteSegment) :
      (!(Text.squeeze s.content).isEmpty) = s.content.any (!Text.isWhite ·) := by
    rw [Bool.eq_iff_iff, Bool.not_eq_true', List.isEmpty_eq_false_iff, Ne, Text.squeeze_eq_nil_iff,
      List.any_eq_true]
    simp
  rw [referenceOf, lastReference, List.filter_map, List.filter_filter, List.getLast?_map]
  congr 3
  funext s
  rw [Function.comp_apply, hblank, Bool.and_comm]

theorem lastReference_eq (segments : List NoteSegment) : lastReference segments =
    ((segments.filter NoteSegment.isReference).filter fun s =>
      s.content.any (!Text.isWhite ·)).getLast? := by
  rw [List.filter_filter, lastReference]
  simp only [Bool.and_comm]

/-- Segments that read alike make the same note. -/
theorem lastReference_congr {xs ys : List NoteSegment} (h : NoteSegment.ReadAs xs ys) :
    lastReference xs = lastReference ys := by
  rw [lastReference_eq, lastReference_eq, h.references]

/-- A note is read where each step of the reading succeeds. -/
theorem parse_eq_ok_iff_read {attributes body : List Char} {n : NoteMarker} :
    parse attributes body = .ok n ↔
      ∃ items style kind caller segments, NoteAttribute.readAll? attributes = some items ∧
        value? items "style" = some style ∧ NoteKind.ofStyle? style = some kind ∧
        value? items "caller" = some caller ∧ NoteSegment.readAll? body = some segments ∧
        (textOf segments).isEmpty = false ∧
        n = ⟨kind, caller, referenceOf segments, textOf segments⟩ := by
  constructor
  · intro h
    rw [parse] at h
    split at h
    · cases h
    rename_i items hitems
    split at h
    · cases h
    rename_i style hstyle
    split at h
    · cases h
    rename_i kind hkind
    split at h
    · cases h
    rename_i caller hcaller
    split at h
    · cases h
    rename_i segments hsegments
    split at h
    · cases h
    rename_i htext
    cases h
    exact ⟨items, style, kind, caller, segments, hitems, hstyle, hkind, hcaller, hsegments,
      Bool.eq_false_iff.mpr htext, rfl⟩
  · rintro ⟨items, style, kind, caller, segments, hitems, hstyle, hkind, hcaller, hsegments, htext,
      rfl⟩
    simp only [parse, hitems, hstyle, hkind, hcaller, hsegments, htext]
    rfl

theorem textOf_isEmpty_eq_false_iff {segments : List NoteSegment} :
    (textOf segments).isEmpty = false ↔ ∃ c ∈ plainText segments, Text.isWhite c = false := by
  have htext : textOf segments = Text.squeeze (plainText segments) := rfl
  rw [htext, List.isEmpty_eq_false_iff, Ne, Text.squeeze_eq_nil_iff]
  simp

/-- **A note is read exactly where the grammar has one**, and it is the note of any spelling: its
kind is that of the first style and its caller the first caller, its reference is the last that is
not white space alone, and its text is what stands outside the references, both with the white
space squeezed. -/
theorem parse_eq_ok_iff (attributes body : List Char) (n : NoteMarker) :
    parse attributes body = .ok n ↔
      ∃ items style kind caller segments,
        Items items attributes ∧ value? items "style" = some style ∧
        (String.ofList style, kind) ∈ [("f", NoteKind.footnote), ("fe", .endnote), ("ef", .endnote),
          ("x", .crossReference), ("ex", .crossReference)] ∧
        value? items "caller" = some caller ∧ Body segments body ∧
        (∃ c ∈ plainText segments, Text.isWhite c = false) ∧
        n = ⟨kind, caller, (lastReference segments).map fun s => Text.squeeze s.content,
          Text.squeeze (plainText segments)⟩ := by
  rw [parse_eq_ok_iff_read]
  constructor
  · rintro ⟨items, style, kind, caller, segments, hitems, hstyle, hkind, hcaller, hsegments, htext,
      rfl⟩
    refine ⟨items, style, kind, caller, segments, NoteAttribute.readAll?_eq_some_iff.mp hitems,
      hstyle, NoteKind.ofStyle?_eq_some_iff.mp hkind, hcaller,
      NoteSegment.body_of_readAll? hsegments, textOf_isEmpty_eq_false_iff.mp htext, ?_⟩
    rw [referenceOf_eq]
    rfl
  · rintro ⟨items, style, kind, caller, segments, hitems, hstyle, hkind, hcaller, hbody, htext, rfl⟩
    obtain ⟨read, hread, hsame⟩ := hbody.exists_readAll?
    rw [← hsame.text] at htext
    refine ⟨items, style, kind, caller, read, NoteAttribute.readAll?_eq_some_iff.mpr hitems,
      hstyle, NoteKind.ofStyle?_eq_some_iff.mpr hkind, hcaller, hread,
      textOf_isEmpty_eq_false_iff.mpr htext, ?_⟩
    rw [referenceOf_eq, ← lastReference_congr hsame, ← hsame.text]
    rfl

end NoteMarker

end Passage
