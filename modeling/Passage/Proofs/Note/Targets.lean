import Mathlib.Data.List.SplitBy
import Passage.Proofs.Render.Alike
import Passage.Proofs.Render.Unread
import Passage.Proofs.Style.Regions
import Passage.Proofs.Styled.Targets

/-! The tap targets of notes. A glyph is a run, and runs that touch are one if their styles are: so
notes that follow each other without a gap and have one payload share a target, which covers their
glyphs together. All other notes have targets of their own, in the order in which they stand in the
text (`note_targets`). -/

namespace Passage

/-! ## Lists cut between neighbours -/

section
variable {α : Type} {r : α → α → Bool} {a b : α} {l g : List α} {gs : List (List α)}

theorem splitBy_cons_of_not_rel (h : r a b = false) :
    (a :: b :: l).splitBy r = [a] :: (b :: l).splitBy r := by
  have hcut : ∀ x ∈ [a].getLast?, ∀ y ∈ (b :: l).head?, r x y = false := by
    simpa using h
  have hone : [a].splitBy r = [[a]] := List.splitBy_of_isChain (List.cons_ne_nil _ _) (.singleton a)
  rw [← List.singleton_append, List.splitBy_append hcut, hone, List.singleton_append]

theorem exists_splitBy_cons (r : α → α → Bool) (b : α) (l : List α) :
    ∃ g gs, (b :: l).splitBy r = (b :: g) :: gs := by
  have hne : b :: l ≠ [] := List.cons_ne_nil b l
  obtain ⟨x, gs, hx⟩ := List.exists_cons_of_ne_nil (List.splitBy_ne_nil.mpr hne : _ ≠ _)
  have hflat := List.flatten_splitBy r (b :: l)
  rw [hx, List.flatten_cons] at hflat
  have hxne : x ≠ [] := List.ne_nil_of_mem_splitBy (hx ▸ List.mem_cons_self)
  obtain ⟨c, g, rfl⟩ := List.exists_cons_of_ne_nil hxne
  obtain ⟨rfl, -⟩ := List.cons.inj hflat
  exact ⟨g, gs, hx⟩

theorem splitBy_cons_of_rel (h : r a b = true) (hl : (b :: l).splitBy r = (b :: g) :: gs) :
    (a :: b :: l).splitBy r = (a :: b :: g) :: gs := by
  obtain ⟨hflat, hnil, hchain, hcut⟩ := List.splitBy_eq_iff.mp hl
  refine List.splitBy_eq_iff.mpr ⟨by rw [hflat]; rfl, by simpa using hnil, ?_, ?_⟩
  · obtain ⟨hfirst, hrest⟩ := List.forall_mem_cons.mp hchain
    exact List.forall_mem_cons.mpr ⟨List.isChain_cons_cons.mpr ⟨h, hfirst⟩, hrest⟩
  · rw [List.isChain_cons] at hcut ⊢
    obtain ⟨hnext, hlater⟩ := hcut
    refine ⟨fun y hy => ?_, hlater⟩
    obtain ⟨hg, hy, hr⟩ := hnext y hy
    exact ⟨List.cons_ne_nil _ _, hy, by rwa [List.getLast_cons hg]⟩

theorem length_splitBy_le (r : α → α → Bool) (l : List α) : (l.splitBy r).length ≤ l.length := by
  induction l with
  | nil => exact Nat.le_refl 0
  | cons a l ih =>
    cases l with
    | nil => exact Nat.le_refl 1
    | cons b l =>
      obtain ⟨g, gs, hl⟩ := exists_splitBy_cons r b l
      cases h : r a b with
      | false =>
        rw [splitBy_cons_of_not_rel h]
        exact Nat.succ_le_succ ih
      | true =>
        rw [splitBy_cons_of_rel h hl]
        rw [hl] at ih
        exact Nat.le_succ_of_le ih

/-- A list whose neighbours are unrelated is cut everywhere. -/
theorem splitBy_of_unrelated (h : l.IsChain fun x y => r x y = false) :
    l.splitBy r = l.map ([·]) := by
  induction l with
  | nil => rfl
  | cons a l ih =>
    cases l with
    | nil => rfl
    | cons b l =>
      obtain ⟨hab, hl⟩ := List.isChain_cons_cons.mp h
      rw [splitBy_cons_of_not_rel hab, ih hl]
      rfl

/-- There are as many parts as members only if no neighbours are related. -/
theorem length_splitBy_eq_iff :
    (l.splitBy r).length = l.length ↔ l.IsChain fun x y => r x y = false := by
  constructor
  · intro hlen
    induction l with
    | nil => exact .nil
    | cons a l ih =>
      cases l with
      | nil => exact .singleton a
      | cons b l =>
        obtain ⟨g, gs, hl⟩ := exists_splitBy_cons r b l
        cases h : r a b with
        | false =>
          rw [splitBy_cons_of_not_rel h] at hlen
          exact List.isChain_cons_cons.mpr ⟨h, ih (Nat.succ.inj hlen)⟩
        | true =>
          have hle := length_splitBy_le r (b :: l)
          rw [splitBy_cons_of_rel h hl] at hlen
          rw [hl] at hle
          simp only [List.length_cons] at hlen hle
          omega
  · intro h
    rw [splitBy_of_unrelated h, List.length_map]

end

/-! ## The notes of a text -/

/-- The note tags of a text that can be read, in order, with what is read of them. -/
def parsedNotes (text : List Char) : List (Tag.Match × NoteMarker) :=
  (Tag.Pattern.note.matches text).filterMap fun m =>
    (NoteMarker.parse (m.captured text 0) (m.captured text 1)).toOption.map (m, ·)

/-- The second note starts where the first one ends, and has its payload. -/
def touching (a b : Tag.Match × NoteMarker) : Bool :=
  a.1.span.stop == b.1.start && a.2.payload == b.2.payload

/-- The note targets of a text, each with what it covers. -/
def StyledText.noteTargets (t : StyledText) : List (Region × Option (List Char)) :=
  t.tapTargets.filter fun p => p.1.kind = .note

/-- The target that notes have together, with their glyphs. -/
def sharedTarget? (notes : List (Tag.Match × NoteMarker)) : Option (Region × List Char) :=
  notes.head?.map fun n => (n.2.region, notes.flatMap fun n => n.2.glyph)

theorem NoteMarker.glyph_ne_nil (n : NoteMarker) : n.glyph ≠ [] := by
  have hkind : n.kind.glyph ≠ [] := by
    cases n.kind <;> exact List.cons_ne_nil _ _
  unfold glyph
  split
  · exact hkind
  · exact hkind
  · exact hkind
  · assumption

theorem NoteMarker.styles_eq_iff {n k : NoteMarker} : n.styles = k.styles ↔ n.payload = k.payload := by
  constructor
  · intro h
    have hregions := congrArg StyleSet.regions h
    rw [styles, styles, StyleSet.regions_ofList_pair rfl, StyleSet.regions_ofList_pair rfl]
      at hregions
    have hregion : n.region = k.region := List.singleton_injective hregions
    exact String.ofList_injective (congrArg Region.payload hregion)
  · intro h
    rw [styles, styles, region, region, h]

theorem NoteMarker.styles_ne_empty (n : NoteMarker) : n.styles ≠ ∅ := by
  intro h
  have hregions := congrArg StyleSet.regions h
  rw [styles, StyleSet.regions_ofList_pair rfl] at hregions
  cases hregions

theorem Run.tapTarget?_of_note {r : Run} {n : NoteMarker} (h : r.styles = n.styles) :
    r.tapTarget? = some (n.region, r.text) := by
  rw [tapTarget?, h, NoteMarker.styles, StyleSet.regions_ofList_pair rfl]
  rfl

theorem touching_iff {a b : Tag.Match × NoteMarker} :
    touching a b = true ↔ a.1.span.stop = b.1.start ∧ a.2.styles = b.2.styles := by
  rw [touching, Bool.and_eq_true, beq_iff_eq, beq_iff_eq, NoteMarker.styles_eq_iff]

/-- The runs of a text from an offset on: the stretches between the notes, and their glyphs. -/
def noteRuns (text : List Char) (offset : Nat) : List (Tag.Match × NoteMarker) → List Run
  | [] => [⟨text.drop offset, ∅⟩]
  | (m, n) :: rest =>
    ⟨(text.drop offset).take (m.start - offset), ∅⟩ :: ⟨n.glyph, n.styles⟩ ::
      noteRuns text m.span.stop rest

section
variable {text : List Char} {offset : Nat} {a b : Tag.Match × NoteMarker}
  {l : List (Tag.Match × NoteMarker)}

theorem charsOf_noteRuns (text : List Char) (offset : Nat) (l : List (Tag.Match × NoteMarker)) :
    Run.charsOf (noteRuns text offset l) =
      weave (StyledText.plain text).chars offset (l.map fun n => (n.1, n.2.render)) := by
  induction l generalizing offset with
  | nil => simp [noteRuns, weave, Run.chars]
  | cons a l ih =>
    rw [noteRuns, Run.charsOf_cons, Run.charsOf_cons, ih, List.map_cons, weave,
      NoteMarker.render, StyledText.chars_styled, StyledText.chars_plain, Run.chars, Run.chars,
      List.map_take, List.map_drop, List.append_assoc]
    rfl

/-- The first run after a note has its styles only if the next note touches it. -/
theorem styles_head_noteRuns (hle : offset ≤ b.1.start) (hlt : b.1.start < text.length) :
    ∃ s rest, Run.normalize (noteRuns text offset (b :: l)) = s :: rest ∧
      s.styles = if offset = b.1.start then b.2.styles else ∅ := by
  obtain ⟨m, n⟩ := b
  simp only at hle hlt
  obtain ⟨x, rest, hrest⟩ :=
    Run.exists_join_eq_cons (r := ⟨n.glyph, n.styles⟩) n.glyph_ne_nil
      (Run.normalize (noteRuns text m.span.stop l))
  have hnormal : Run.normalize (noteRuns text offset ((m, n) :: l)) =
      Run.join ⟨(text.drop offset).take (m.start - offset), ∅⟩ (⟨x, n.styles⟩ :: rest) :=
    congrArg _ hrest
  by_cases h : offset = m.start
  · rw [hnormal, Run.join_of_empty (by simp [h])]
    exact ⟨_, _, rfl, (if_pos h).symm⟩
  · have hgap : (text.drop offset).take (m.start - offset) ≠ [] := by
      rw [← List.length_pos_iff, List.length_take, List.length_drop]
      omega
    obtain ⟨y, rest', hjoin⟩ := Run.exists_join_eq_cons
      (r := ⟨(text.drop offset).take (m.start - offset), ∅⟩) hgap (⟨x, n.styles⟩ :: rest)
    exact ⟨_, _, hnormal.trans hjoin, (if_neg h).symm⟩

/-- A note that no other one follows at once, or only one with another payload. -/
theorem targets_noteRuns_cons (h : ∀ s ∈ (Run.normalize (noteRuns text a.1.span.stop l)).head?,
    a.2.styles ≠ s.styles) :
    (Run.normalize (noteRuns text offset (a :: l))).filterMap Run.tapTarget? =
      (a.2.region, a.2.glyph) ::
        (Run.normalize (noteRuns text a.1.span.stop l)).filterMap Run.tapTarget? := by
  obtain ⟨m, n⟩ := a
  have hjoin := Run.join_of_ne (r := ⟨n.glyph, n.styles⟩) n.glyph_ne_nil h
  have hnormal : Run.normalize (noteRuns text offset ((m, n) :: l)) =
      Run.join ⟨(text.drop offset).take (m.start - offset), ∅⟩
        (⟨n.glyph, n.styles⟩ :: Run.normalize (noteRuns text m.span.stop l)) :=
    congrArg _ hjoin
  rw [hnormal, Run.filterMap_tapTarget?_join rfl,
    List.filterMap_cons_some (Run.tapTarget?_of_note rfl)]

/-- A note with the styles of the run that follows it. -/
theorem targets_noteRuns_cons_of_eq {s : Run} {rest : List Run}
    (hs : Run.normalize (noteRuns text a.1.span.stop l) = s :: rest)
    (h : a.2.styles = s.styles) :
    (Run.normalize (noteRuns text offset (a :: l))).filterMap Run.tapTarget? =
      (a.2.region, a.2.glyph ++ s.text) :: rest.filterMap Run.tapTarget? := by
  obtain ⟨m, n⟩ := a
  have hjoin : Run.join ⟨n.glyph, n.styles⟩ (s :: rest) = ⟨n.glyph ++ s.text, n.styles⟩ :: rest :=
    Run.join_of_eq n.glyph_ne_nil h
  rw [← hs] at hjoin
  have hnormal : Run.normalize (noteRuns text offset ((m, n) :: l)) =
      Run.join ⟨(text.drop offset).take (m.start - offset), ∅⟩
        (⟨n.glyph ++ s.text, n.styles⟩ :: rest) :=
    congrArg _ hjoin
  rw [hnormal, Run.filterMap_tapTarget?_join rfl,
    List.filterMap_cons_some (Run.tapTarget?_of_note rfl)]

/-- **The targets of the runs are those of the stretches of notes that touch.** -/
theorem targets_noteRuns (hf : Tag.Following offset (l.map Prod.fst))
    (hlt : ∀ n ∈ l, n.1.start < text.length) :
    (Run.normalize (noteRuns text offset l)).filterMap Run.tapTarget? =
      (l.splitBy touching).filterMap sharedTarget? := by
  induction l generalizing offset with
  | nil => exact Run.filterMap_tapTarget?_join rfl []
  | cons a l ih =>
    obtain ⟨-, hf⟩ := hf
    obtain ⟨-, hlt⟩ := List.forall_mem_cons.mp hlt
    have ih := ih hf hlt
    cases l with
    | nil =>
      have hhead : ∀ s ∈ (Run.normalize (noteRuns text a.1.span.stop [])).head?,
          a.2.styles ≠ s.styles := by
        refine Run.styles_ne_of_filterMap_eq_nil (r := ⟨a.2.glyph, a.2.styles⟩) ih ?_
        rw [NoteMarker.styles, StyleSet.regions_ofList_pair rfl]
        exact List.cons_ne_nil _ _
      rw [targets_noteRuns_cons hhead, ih]
      simp [sharedTarget?, List.splitBy_of_isChain]
    | cons b l =>
      obtain ⟨hle, -⟩ := hf
      obtain ⟨hb, -⟩ := List.forall_mem_cons.mp hlt
      obtain ⟨s, rest, hs, hstyles⟩ := styles_head_noteRuns (l := l) hle hb
      obtain ⟨g, gs, hsplit⟩ := exists_splitBy_cons touching b l
      cases htouch : touching a b with
      | false =>
        have hhead : ∀ r ∈ (Run.normalize (noteRuns text a.1.span.stop (b :: l))).head?,
            a.2.styles ≠ r.styles := by
          intro r hr hsame
          rw [hs] at hr
          obtain rfl := Option.some.inj hr
          rw [hstyles] at hsame
          split at hsame
          · rename_i hstart
            rw [touching_iff.mpr ⟨hstart, hsame⟩] at htouch
            cases htouch
          · exact a.2.styles_ne_empty hsame
        rw [targets_noteRuns_cons hhead, ih, splitBy_cons_of_not_rel htouch]
        simp [sharedTarget?]
      | true =>
        obtain ⟨hstart, hsame⟩ := touching_iff.mp htouch
        rw [if_pos hstart] at hstyles
        rw [hs, hsplit, List.filterMap_cons_some (Run.tapTarget?_of_note hstyles)] at ih
        obtain ⟨htext, hrest⟩ := List.cons.inj ih
        have htext : s.text = (b :: g).flatMap fun n => n.2.glyph := congrArg Prod.snd htext
        rw [targets_noteRuns_cons_of_eq hs (hsame.trans hstyles.symm), hrest, htext,
          splitBy_cons_of_rel htouch hsplit]
        rfl

end

/-! ## The stage of notes -/

/-- Some of the matches follow each other as all of them do. -/
theorem Tag.Following.filterMap {α β : Type} {f : α → Option β} {k : α → Tag.Match}
    {k' : β → Tag.Match} (hk : ∀ a b, f a = some b → k' b = k a) {l : List α} {offset : Nat}
    (h : Tag.Following offset (l.map k)) : Tag.Following offset ((l.filterMap f).map k') := by
  induction l generalizing offset with
  | nil => trivial
  | cons a l ih =>
    obtain ⟨hle, hl⟩ := h
    have hspan : offset ≤ (k a).span.stop := Nat.le_trans hle (Nat.le_add_right _ _)
    cases hfa : f a with
    | none =>
      rw [List.filterMap_cons_none hfa]
      exact (ih hl).of_le hspan
    | some b =>
      rw [List.filterMap_cons_some hfa, List.map_cons, hk a b hfa]
      exact ⟨hle, ih hl⟩

/-- Weaving from an offset on, or from a later one before all the matches. -/
theorem weave_of_le {cs : List StyledChar} {edits : List (Tag.Match × StyledText)}
    {offset k : Nat} (hk : offset ≤ k) (hf : Tag.Following k (edits.map Prod.fst)) :
    weave cs offset edits = (cs.drop offset).take (k - offset) ++ weave cs k edits := by
  cases edits with
  | nil =>
    have hdrop : cs.drop k = (cs.drop offset).drop (k - offset) := by
      rw [List.drop_drop, Nat.add_sub_of_le hk]
    rw [weave, weave, hdrop, List.take_append_drop]
  | cons e edits =>
    obtain ⟨m, u⟩ := e
    have hle : k ≤ m.start := hf.1
    have hgap : m.start - offset = k - offset + (m.start - k) := by omega
    rw [weave, weave, hgap, List.take_add, List.drop_drop, Nat.add_sub_of_le hk,
      List.append_assoc, List.append_assoc, List.append_assoc]

/-- In unstyled text a tag that cannot be read stays as it is. -/
theorem weave_plain_readings {text : List Char} {offset : Nat} {rs : Readings}
    (hf : Tag.Following offset (rs.map Prod.fst)) :
    weave (StyledText.plain text).chars offset
        (rs.map fun r => (r.1, r.2.getD ((StyledText.plain text).occurrence r.1).raw)) =
      weave (StyledText.plain text).chars offset
        (rs.filterMap fun r => r.2.map (r.1, ·)) := by
  induction rs generalizing offset with
  | nil => rfl
  | cons r rs ih =>
    obtain ⟨m, answer⟩ := r
    obtain ⟨hle, hf⟩ := hf
    simp only at hle hf
    have hread : Tag.Following m.span.stop
        ((rs.filterMap fun r => r.2.map (r.1, ·)).map Prod.fst) := by
      refine hf.filterMap fun r e he => ?_
      obtain ⟨u, -, rfl⟩ := Option.map_eq_some_iff.mp he
      rfl
    cases answer with
    | some u =>
      rw [List.map_cons, weave, ih hf]
      rfl
    | none =>
      have hraw : ((StyledText.plain text).occurrence m).raw.chars =
          ((StyledText.plain text).chars.drop m.start).take m.extent.length := by
        rw [Occurrence.raw, StyledText.occurrence, StyledText.extract_plain, StyledText.text_plain,
          StyledText.chars_plain, StyledText.chars_plain, Text.slice, List.map_take, List.map_drop,
          Tag.Match.span, Nat.add_sub_cancel_left]
      have hstop : offset ≤ m.span.stop := Nat.le_trans hle (Nat.le_add_right _ _)
      have hlen : m.span.stop - offset = m.start - offset + m.extent.length := by
        simp only [Tag.Match.span]
        omega
      rw [List.map_cons, weave, ih hf, Option.getD_none, hraw]
      change _ = weave _ offset (rs.filterMap fun r => r.2.map (r.1, ·))
      rw [weave_of_le hstop hread, hlen, List.take_add, List.drop_drop, Nat.add_sub_of_le hle]

/-- In unstyled text the stage puts glyphs in the place of the notes that can be read. -/
theorem apply_note_plain (config : RenderConfig) (text : List Char) :
    Stage.note.apply config (.plain text) = .ofRuns (noteRuns text 0 (parsedNotes text)) := by
  have hf := Tag.Pattern.note.following_matches text
  rw [← map_fst_noteReadings] at hf
  have hedits : Stage.note.edits config (.plain text) = (noteReadings text).map
      fun r => (r.1, r.2.getD ((StyledText.plain text).occurrence r.1).raw) := by
    rw [edits_note, StyledText.text_plain]
  have hread : ((noteReadings text).filterMap fun r => r.2.map (r.1, ·)) =
      (parsedNotes text).map fun n => (n.1, n.2.render) := by
    rw [noteReadings, parsedNotes, List.filterMap_map, List.map_filterMap]
    refine List.filterMap_congr fun m _ => ?_
    rw [Option.map_map, Function.comp_apply, Option.map_map]
    rfl
  rw [StyledText.eq_iff_chars, Stage.chars_apply (by decide), hedits, weave_plain_readings hf,
    hread, StyledText.chars_ofRuns, charsOf_noteRuns]

theorem following_parsedNotes (text : List Char) :
    Tag.Following 0 ((parsedNotes text).map Prod.fst) := by
  have hf := Tag.Pattern.note.following_matches text
  rw [← List.map_id (Tag.Pattern.note.matches text)] at hf
  refine hf.filterMap fun m n hn => ?_
  obtain ⟨k, -, rfl⟩ := Option.map_eq_some_iff.mp hn
  rfl

theorem start_lt_of_mem_parsedNotes (text : List Char) :
    ∀ n ∈ parsedNotes text, n.1.start < text.length := by
  intro n hn
  obtain ⟨m, hm, hn⟩ := List.mem_filterMap.mp hn
  obtain ⟨k, -, rfl⟩ := Option.map_eq_some_iff.mp hn
  exact (Tag.Pattern.match?_of_mem_matches hm).1

theorem tapTargets_apply_note_plain (config : RenderConfig) (text : List Char) :
    (Stage.note.apply config (.plain text)).tapTargets =
      (((parsedNotes text).splitBy touching).filterMap sharedTarget?).map
        fun p => (p.1, some p.2) := by
  have htargets := targets_noteRuns (following_parsedNotes text) (start_lt_of_mem_parsedNotes text)
  rw [apply_note_plain, StyledText.tapTargets_eq]
  exact congrArg _ htargets

theorem kind_of_mem_sharedTargets {parts : List (List (Tag.Match × NoteMarker))}
    {p : Region × List Char} (h : p ∈ parts.filterMap sharedTarget?) : p.1.kind = .note := by
  obtain ⟨g, -, hg⟩ := List.mem_filterMap.mp h
  obtain ⟨n, -, rfl⟩ := Option.map_eq_some_iff.mp hg
  rfl

/-- **Notes that touch and have one payload share a target, and all others have their own.** The
stage of notes runs to its end on any unstyled text unless it is cancelled. The note targets of its
output are those of the stretches of notes that touch: each has the payload of its notes, and covers
their glyphs. So they are as many as the notes that can be read only if no two of these touch and
have one payload, and then they are the notes one by one, each covering its glyph. -/
theorem note_targets (config : RenderConfig) (text : List Char) :
    (Stage.note.run config (.always false) (.plain text)).isSome ∧
    ∀ polls out, Stage.note.run config polls (.plain text) = some out →
      out.noteTargets =
        (((parsedNotes text).splitBy touching).filterMap sharedTarget?).map
          (fun p => (p.1, some p.2)) ∧
      (out.noteTargets.length = (parsedNotes text).length ↔
        (parsedNotes text).IsChain fun a b => touching a b = false) ∧
      ((parsedNotes text).IsChain (fun a b => touching a b = false) →
        out.noteTargets = (parsedNotes text).map fun n => (n.2.region, some n.2.glyph)) := by
  refine ⟨by rw [Stage.run_always]; rfl, fun polls out hout => ?_⟩
  have htargets : out.noteTargets =
      (((parsedNotes text).splitBy touching).filterMap sharedTarget?).map
        (fun p => (p.1, some p.2)) := by
    rw [Stage.eq_apply_of_run hout, StyledText.noteTargets, tapTargets_apply_note_plain]
    refine List.filter_eq_self.mpr (List.forall_mem_map.mpr fun p hp => ?_)
    rw [kind_of_mem_sharedTargets hp]
    rfl
  refine ⟨htargets, ?_, fun hchain => ?_⟩
  · have hparts : (((parsedNotes text).splitBy touching).filterMap sharedTarget?).length =
        ((parsedNotes text).splitBy touching).length := by
      refine List.filterMap_length_eq_length.mpr fun g hg => ?_
      obtain ⟨n, g, rfl⟩ := List.exists_cons_of_ne_nil (List.ne_nil_of_mem_splitBy hg)
      rfl
    rw [htargets, List.length_map, hparts, length_splitBy_eq_iff]
  · have hone : sharedTarget? ∘ ([·]) = fun n => some (n.2.region, n.2.glyph) := by
      funext n
      simp [sharedTarget?]
    rw [htargets, splitBy_of_unrelated hchain, List.filterMap_map, hone, List.filterMap_eq_map',
      List.map_map]
    rfl

/-- Two notes that touch, with different payloads, and one apart from them. -/
theorem note_targets_of_three :
    (Stage.note.apply {} (.plain ("<note caller=\"a\" style=\"f\">x</note>".toList ++
        "<note caller=\"b\" style=\"f\">y</note> <note caller=\"c\" style=\"f\">y</note>".toList))
      ).noteTargets =
      [(⟨.note, "x"⟩, some ['a']), (⟨.note, "y"⟩, some ['b']), (⟨.note, "y"⟩, some ['c'])] := by
  obtain ⟨-, hall⟩ := note_targets {}
    ("<note caller=\"a\" style=\"f\">x</note>".toList ++
      "<note caller=\"b\" style=\"f\">y</note> <note caller=\"c\" style=\"f\">y</note>".toList)
  obtain ⟨-, -, hown⟩ := hall _ _ (Stage.run_always ..)
  rw [hown (by decide +kernel)]
  decide +kernel

/-- Two notes that touch and have one payload share a target. -/
theorem note_targets_shared :
    let text := ("<note caller=\"a\" style=\"f\">x</note>".toList ++
      "<note caller=\"b\" style=\"f\">x</note>".toList)
    (Stage.note.apply {} (.plain text)).noteTargets = [(⟨.note, "x"⟩, some ['a', 'b'])] ∧
      (parsedNotes text).map (fun n => (n.2.region, n.2.glyph)) =
        [(⟨.note, "x"⟩, ['a']), (⟨.note, "x"⟩, ['b'])] ∧
      (Stage.note.apply {} (.plain text)).noteTargets.length ≠ (parsedNotes text).length := by
  decide +kernel

end Passage
