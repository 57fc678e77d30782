import Passage.Proofs.Render.Pins
import Passage.Proofs.Render.Splice
import Passage.Proofs.Tag.Grammar
import Passage.Proofs.Verse.Coverage

/-! Inline tags that cannot be read. The stages of notes and verses answer the tags of a text one
after the other. A tag that can be read is replaced by its answer; one that cannot stands in the
output as it is written, without styles, and what the stage has counted so far is left alone
(`inline_degrades`). So the answers to the other tags are the same without it. -/

namespace Passage

/-- Tags with the texts that stand for them; one that cannot be read has none. -/
abbrev Readings := List (Tag.Match × Option StyledText)

namespace Readings

/-- What the pass leaves of the character at a place: outside the tags the character, in a tag that
cannot be read the character without styles, and of any other tag what stands for it, at the place
where it starts. -/
def leftAt (rs : Readings) (p : StyledChar × Nat) : List StyledChar :=
  match rs.find? fun r => r.1.Covers p.2 with
  | none => [p.1]
  | some (_, none) => [(p.1.1, ∅)]
  | some (m, some u) => if m.start = p.2 then u.chars else []

/-- Characters with the tags replaced that can be read, and the others without styles. -/
def left (rs : Readings) (cs : List StyledChar) : List StyledChar :=
  cs.zipIdx.flatMap rs.leftAt

def unreadAt (rs : Readings) (i : Nat) : Bool :=
  rs.any fun r => r.2.isNone && r.1.Covers i

def readable (rs : Readings) : List Tag.Match :=
  (rs.filter fun r => r.2.isSome).map Prod.fst

end Readings

/-! ## The places of a weave -/

section
variable {t : StyledText} {rs : Readings} {m : Tag.Match}

/-- A stretch that begins at a place has what stands there, if its other places have nothing. -/
theorem flatMap_zipIdx_start {cs u : List StyledChar} {n : Nat}
    {g : StyledChar × Nat → List StyledChar} (hne : cs ≠ [])
    (h : ∀ p ∈ cs.zipIdx n, g p = if n = p.2 then u else []) : (cs.zipIdx n).flatMap g = u := by
  obtain ⟨c, rest, rfl⟩ := List.exists_cons_of_ne_nil hne
  rw [List.zipIdx_cons] at h ⊢
  obtain ⟨hfirst, hrest⟩ := List.forall_mem_cons.mp h
  have hnil : (rest.zipIdx (n + 1)).flatMap g = [] := by
    refine List.flatMap_eq_nil_iff.mpr fun p hp => ?_
    have hlt := List.le_snd_of_mem_zipIdx hp
    rw [hrest p hp, if_neg (by omega)]
  rw [List.flatMap_cons, hfirst, if_pos rfl, hnil, List.append_nil]

theorem Readings.leftAt_of_outside {q : StyledChar × Nat} (h : ∀ r ∈ rs, ¬ r.1.Covers q.2) :
    rs.leftAt q = [q.1] := by
  have hfind : rs.find? (fun r => r.1.Covers q.2) = none :=
    List.find?_eq_none.mpr fun r hr => by simpa using h r hr
  rw [leftAt, hfind]

/-- The places of a tag that cannot be read. -/
theorem Readings.leftAt_of_unread (hf : Tag.Following 0 (rs.map Prod.fst)) (hr : (m, none) ∈ rs)
    {q : StyledChar × Nat} (hc : m.Covers q.2) : rs.leftAt q = [(q.1.1, ∅)] := by
  have hfind : rs.find? (fun r => r.1.Covers q.2) = some (m, none) := hf.find?_covers hr hc
  rw [leftAt, hfind]

/-- The places of a tag that can be read. -/
theorem Readings.leftAt_of_read (hf : Tag.Following 0 (rs.map Prod.fst)) {u : StyledText}
    (hr : (m, some u) ∈ rs) {q : StyledChar × Nat} (hc : m.Covers q.2) :
    rs.leftAt q = if m.start = q.2 then u.chars else [] := by
  have hfind : rs.find? (fun r => r.1.Covers q.2) = some (m, some u) := hf.find?_covers hr hc
  rw [leftAt, hfind]

/-- What is left of the places of a tag is what the pass puts there. -/
theorem Readings.flatMap_leftAt (hf : Tag.Following 0 (rs.map Prod.fst))
    {answer : Option StyledText} (hr : (m, answer) ∈ rs) (hpos : 0 < m.extent.length)
    (hstop : m.span.stop ≤ t.chars.length) :
    (((t.chars.drop m.start).take m.extent.length).zipIdx m.start).flatMap rs.leftAt =
      (answer.getD (t.occurrence m).raw).chars := by
  have hlen : ((t.chars.drop m.start).take m.extent.length).length = m.extent.length := by
    simp only [Tag.Match.span] at hstop
    rw [List.length_take, List.length_drop]
    omega
  have hc : ∀ q ∈ ((t.chars.drop m.start).take m.extent.length).zipIdx m.start,
      m.Covers q.2 := by
    intro q hq
    have hlt := List.snd_lt_add_of_mem_zipIdx hq
    rw [hlen] at hlt
    exact ⟨List.le_snd_of_mem_zipIdx hq, hlt⟩
  cases answer with
  | none =>
    have hplaces := flatMap_zipIdx_of_eq (f := fun c : StyledChar => [(c.1, (∅ : StyleSet))])
      fun q hq => leftAt_of_unread hf hr (hc q hq)
    rw [hplaces, ← List.map_eq_flatMap, Option.getD_none, Occurrence.raw, StyledText.chars_plain,
      StyledText.text_eq_map_chars, StyledText.occurrence, StyledText.chars_extract,
      Tag.Match.span, Nat.add_sub_cancel_left, List.map_map]
    rfl
  | some u =>
    have hne : (t.chars.drop m.start).take m.extent.length ≠ [] := by
      rwa [← List.length_pos_iff, hlen]
    exact flatMap_zipIdx_start hne fun q hq => leftAt_of_read hf hr (hc q hq)

/-- **A pass that puts back the tags that cannot be read, place by place.** -/
theorem weave_eq_left {p : Tag.Pattern} (h : rs.map Prod.fst = p.matches t.text)
    (hpos : ∀ m ∈ p.matches t.text, 0 < m.extent.length) :
    weave t.chars 0 (rs.map fun r => (r.1, r.2.getD (t.occurrence r.1).raw)) = rs.left t.chars := by
  have hf : Tag.Following 0 (rs.map Prod.fst) := h ▸ p.following_matches t.text
  have hmem : ∀ r ∈ rs, r.1 ∈ p.matches t.text := fun r hr => h ▸ List.mem_map_of_mem hr
  have hstop : ∀ r ∈ rs, r.1.span.stop ≤ t.chars.length := by
    intro r hr
    rw [← t.length_text]
    exact Tag.Pattern.stop_le_of_mem_matches (hmem r hr)
  rw [← List.flatMap_singleton' (weave ..), flatMap_weave (g := rs.leftAt)]
  · rfl
  · rw [List.map_map]
    exact hf
  · exact List.forall_mem_map.mpr hstop
  · exact fun q _ hnone => rs.leftAt_of_outside fun r hr => hnone _ (List.mem_map_of_mem hr)
  · refine List.forall_mem_map.mpr fun r hr => ?_
    rw [List.flatMap_singleton']
    exact (Readings.flatMap_leftAt hf hr (hpos r.1 (hmem r hr)) (hstop r hr)).symm

end

/-! ## Notes -/

def Tag.Match.captured (m : Tag.Match) (text : List Char) (i : Nat) : List Char :=
  ((m.group? i).map (Text.slice text)).getD []

/-- The note tags of a text with their glyphs. -/
def noteReadings (text : List Char) : Readings :=
  (Tag.Pattern.note.matches text).map fun m =>
    (m, (NoteMarker.parse (m.captured text 0) (m.captured text 1)).toOption.map NoteMarker.render)

theorem noteAt_eq_reading {t : StyledText} {m : Tag.Match}
    (h : m ∈ Tag.Pattern.note.matches t.text) :
    noteAt (t.occurrence m) =
      ((NoteMarker.parse (m.captured t.text 0) (m.captured t.text 1)).toOption.map
        NoteMarker.render).getD (t.occurrence m).raw := by
  rw [noteAt, StyledText.text_group h, StyledText.text_group h, Tag.Match.captured,
    Tag.Match.captured]
  split
  · rename_i note hnote
    rw [hnote]
    rfl
  · rename_i e he
    rw [he]
    rfl

theorem map_fst_noteReadings (text : List Char) :
    (noteReadings text).map Prod.fst = Tag.Pattern.note.matches text := by
  rw [noteReadings, List.map_map]
  exact List.map_id _

theorem edits_note (config : RenderConfig) (t : StyledText) :
    Stage.note.edits config t =
      (noteReadings t.text).map fun r => (r.1, r.2.getD (t.occurrence r.1).raw) := by
  rw [Stage.edits, noteReadings, List.map_map]
  exact List.map_congr_left fun m hm => congrArg (m, ·) (noteAt_eq_reading hm)

/-- **The stage of notes, place by place.** -/
theorem chars_apply_note (config : RenderConfig) (t : StyledText) :
    (Stage.note.apply config t).chars = (noteReadings t.text).left t.chars := by
  rw [Stage.chars_apply (by decide), edits_note]
  exact weave_eq_left (map_fst_noteReadings t.text) fun m hm =>
    Tag.length_pos_of_mem_matches (s := .note) hm

/-! ## Verses -/

/-- What stands for verse tags with these numbers, after those of `seen`: the label of an expected
verse that is new, nothing for another one; a number that cannot be read has no answer. -/
def verseAnswers (config : RenderConfig) (seen : List VerseMarker) :
    List (List Char) → List (Option StyledText)
  | [] => []
  | cs :: rest =>
    match VerseMarker.parse cs with
    | .error _ => none :: verseAnswers config seen rest
    | .ok m =>
      if seen.any m.meets then some ∅ :: verseAnswers config seen rest
      else
        some (if config.expected.admits m then verseLabel config m else ∅) ::
          verseAnswers config (m :: seen) rest

def verseReadings (config : RenderConfig) (text : List Char) : Readings :=
  (Tag.Pattern.verse.matches text).zip (verseAnswers config [] (verseNumbers text))

/-- The labels that come before all text, of the expected verses without a tag. -/
def labelsInFront (config : RenderConfig) (text : List Char) : StyledText :=
  .concat ((config.expected.absent (acceptedVerses text)).map fun n =>
    (VerseMarker.single n).render config.verseHandler)

theorem length_verseAnswers (config : RenderConfig) (seen : List VerseMarker)
    (numbers : List (List Char)) : (verseAnswers config seen numbers).length = numbers.length := by
  induction numbers generalizing seen with
  | nil => rfl
  | cons cs rest ih =>
    rw [verseAnswers]
    split
    · rw [List.length_cons, List.length_cons, ih]
    · split <;> rw [List.length_cons, List.length_cons, ih]

theorem map_fst_verseReadings (config : RenderConfig) (text : List Char) :
    (verseReadings config text).map Prod.fst = Tag.Pattern.verse.matches text := by
  refine List.map_fst_zip ?_
  rw [length_verseAnswers, verseNumbers, List.length_map]

theorem map_snd_verseReadings (config : RenderConfig) (text : List Char) :
    (verseReadings config text).map Prod.snd = verseAnswers config [] (verseNumbers text) := by
  refine List.map_snd_zip ?_
  rw [length_verseAnswers, verseNumbers, List.length_map]

/-- The scan answers each tag that can be read, and puts back the others. -/
theorem answers_verseAt_eq {config : RenderConfig} (hr : config.renderVerses = true)
    (t : StyledText) {found : VerseSet} {seen : List VerseMarker}
    (hseen : ∀ n, n ∈ found ↔ ∃ m ∈ seen, n ∈ m) (ms : List Tag.Match) :
    (answers t (verseAt config) found ms).1 =
      (ms.zip (verseAnswers config seen (ms.map fun m => ((t.occurrence m).group 0).text))).map
        fun r => (r.1, r.2.getD (t.occurrence r.1).raw) := by
  induction ms generalizing found seen with
  | nil => rfl
  | cons m ms ih =>
    simp only [answers, List.map_cons]
    rcases verseAt_cases hr hseen (t.occurrence m) with
      ⟨e, hp, hv⟩ | ⟨k, hp, ⟨hk, hv⟩ | ⟨hk, more, hmore, hv⟩⟩
    · simp only [hv, verseAnswers, hp, ih hseen, List.zip_cons_cons, List.map_cons,
        Option.getD_none]
    · simp only [hv, verseAnswers, hp, if_pos hk, ih hseen, List.zip_cons_cons, List.map_cons,
        Option.getD_some]
    · simp only [hv, verseAnswers, hp, hk, ih hmore, Bool.false_eq_true, if_false,
        List.zip_cons_cons, List.map_cons, Option.getD_some]

/-- **The stage of verses, place by place.** -/
theorem chars_apply_verse {config : RenderConfig} (hr : config.renderVerses = true)
    (t : StyledText) : (Stage.verse.apply config t).chars =
      (labelsInFront config t.text).chars ++ (verseReadings config t.text).left t.chars := by
  have hempty : ∀ n, n ∈ (∅ : VerseSet) ↔ ∃ m ∈ ([] : List VerseMarker), n ∈ m := by simp
  have hanswers := answers_verseAt_eq hr t hempty (Tag.Pattern.verse.matches t.text)
  rw [map_text_group, ← verseReadings] at hanswers
  rw [Stage.apply_verse, verseOutput_eq_labels hr, StyledText.chars_append,
    StyledText.rewritten, StyledText.chars_ofChars, hanswers]
  exact congrArg _ (weave_eq_left (map_fst_verseReadings config t.text) fun m hm =>
    Tag.length_pos_of_mem_matches (s := .verse) hm)

/-! ## Numbers that cannot be read -/

def readsAsVerse (cs : List Char) : Bool :=
  (VerseMarker.parse cs).isOk

theorem readsAsVerse_of_error {cs : List Char} {e : VerseError}
    (h : VerseMarker.parse cs = .error e) : readsAsVerse cs = false := by
  rw [readsAsVerse, h]
  rfl

theorem readsAsVerse_of_ok {cs : List Char} {m : VerseMarker} (h : VerseMarker.parse cs = .ok m) :
    readsAsVerse cs = true := by
  rw [readsAsVerse, h]
  rfl

theorem VerseMarker.acceptFrom_filter (seen : List VerseMarker) (numbers : List (List Char)) :
    acceptFrom seen (numbers.filter readsAsVerse) = acceptFrom seen numbers := by
  induction numbers generalizing seen with
  | nil => rfl
  | cons cs rest ih =>
    cases hp : parse cs with
    | error e => simp [readsAsVerse_of_error hp, acceptFrom, hp, ih]
    | ok m => simp [readsAsVerse_of_ok hp, acceptFrom, hp, ih]

theorem verseAnswers_filter (config : RenderConfig) (seen : List VerseMarker)
    (numbers : List (List Char)) :
    verseAnswers config seen (numbers.filter readsAsVerse) =
      (verseAnswers config seen numbers).filter Option.isSome := by
  induction numbers generalizing seen with
  | nil => rfl
  | cons cs rest ih =>
    cases hp : VerseMarker.parse cs with
    | error e => simp [readsAsVerse_of_error hp, verseAnswers, hp, ih]
    | ok m =>
      simp only [List.filter_cons, readsAsVerse_of_ok hp, if_true, verseAnswers, hp, ih]
      split <;> rfl

theorem readable_zip_verseAnswers (config : RenderConfig) (seen : List VerseMarker)
    (number : Tag.Match → List Char) (ms : List Tag.Match) :
    Readings.readable (ms.zip (verseAnswers config seen (ms.map number))) =
      ms.filter fun m => readsAsVerse (number m) := by
  induction ms generalizing seen with
  | nil => rfl
  | cons m ms ih =>
    simp only [Readings.readable] at ih ⊢
    cases hp : VerseMarker.parse (number m) with
    | error e =>
      simp only [List.filter_cons, readsAsVerse_of_error hp, List.map_cons, verseAnswers, hp]
      exact ih seen
    | ok k =>
      simp only [List.filter_cons, readsAsVerse_of_ok hp, List.map_cons, verseAnswers, hp]
      split <;> exact congrArg (m :: ·) (ih _)

/-! ## Texts without the tags that cannot be read -/

/-- What stands at the places with a property, of a list whose places are counted from `n`. -/
def keepPlaces {α : Type} (q : Nat → Bool) (n : Nat) (xs : List α) : List α :=
  ((xs.zipIdx n).filter fun p => q p.2).map Prod.fst

section
variable {α β : Type} {q : Nat → Bool} {n : Nat} {xs ys : List α}

theorem keepPlaces_append :
    keepPlaces q n (xs ++ ys) = keepPlaces q n xs ++ keepPlaces q (n + xs.length) ys := by
  rw [keepPlaces, List.zipIdx_append, List.filter_append, List.map_append]
  rfl

theorem map_keepPlaces (f : α → β) : (keepPlaces q n xs).map f = keepPlaces q n (xs.map f) := by
  rw [keepPlaces, keepPlaces, List.zipIdx_map, List.filter_map, List.map_map, List.map_map]
  rfl

theorem keepPlaces_of_all (h : ∀ i, n ≤ i → i < n + xs.length → q i = true) :
    keepPlaces q n xs = xs := by
  rw [keepPlaces, List.filter_eq_self.mpr fun p hp =>
    h p.2 (List.le_snd_of_mem_zipIdx hp) (List.snd_lt_add_of_mem_zipIdx hp), List.zipIdx_map_fst]

theorem length_keepPlaces :
    (keepPlaces q n xs).length = ((List.range' n xs.length).filter q).length := by
  rw [keepPlaces, List.length_map, ← List.zipIdx_map_snd n xs, List.filter_map, List.length_map]
  rfl

/-- A stretch of places that all are kept. -/
theorem take_drop_keepPlaces {a k : Nat} (hk : a + k ≤ xs.length)
    (h : ∀ i, a ≤ i → i < a + k → q i = true) :
    ((keepPlaces q 0 xs).drop ((List.range a).filter q).length).take k = (xs.drop a).take k := by
  have hsplit : xs = xs.take a ++ ((xs.drop a).take k ++ xs.drop (a + k)) := by
    rw [← List.drop_drop, List.take_append_drop, List.take_append_drop]
  have hfront : (xs.take a).length = a := by
    rw [List.length_take]
    omega
  have hpart : ((xs.drop a).take k).length = k := by
    rw [List.length_take, List.length_drop]
    omega
  have hlen : (keepPlaces q 0 (xs.take a)).length = ((List.range a).filter q).length := by
    rw [length_keepPlaces, hfront, List.range_eq_range']
  have hkept : keepPlaces q a ((xs.drop a).take k) = (xs.drop a).take k :=
    keepPlaces_of_all (by rwa [hpart])
  conv_lhs => rw [hsplit, keepPlaces_append, keepPlaces_append, hfront, Nat.zero_add, hkept]
  rw [← hlen, List.drop_left, List.take_left' hpart]

end

namespace Readings

def withoutUnread (rs : Readings) (cs : List StyledChar) : List StyledChar :=
  keepPlaces (fun i => !rs.unreadAt i) 0 cs

/-- Where a tag lies in the text without those that cannot be read. -/
def moved (rs : Readings) (m : Tag.Match) : Tag.Match :=
  ⟨((List.range m.start).filter fun i => !rs.unreadAt i).length, m.extent⟩

variable {rs : Readings} {m : Tag.Match}

/-- A tag that can be read has no place in one that cannot. -/
theorem unreadAt_of_readable (hf : Tag.Following 0 (rs.map Prod.fst)) (hm : m ∈ rs.readable)
    {i : Nat} (hc : m.Covers i) : rs.unreadAt i = false := by
  obtain ⟨r, hr, rfl⟩ := List.mem_map.mp hm
  obtain ⟨hr, hsome⟩ := List.mem_filter.mp hr
  refine List.any_eq_false.mpr fun r' hr' hun => ?_
  simp only [Bool.and_eq_true, decide_eq_true_eq] at hun
  obtain ⟨hnone, hc'⟩ := hun
  have hsame := (hf.find?_covers hr hc).symm.trans (hf.find?_covers hr' hc')
  rw [← Option.some.inj hsame, Option.isNone_iff_eq_none] at hnone
  rw [hnone] at hsome
  cases hsome

end Readings

/-- What is captured depends on the tag as it is written. -/
theorem Tag.Match.captured_eq {m : Tag.Match} {text text' : List Char} {start : Nat}
    (hin : ∀ g ∈ m.extent.groups, g.stop ≤ m.extent.length)
    (h : (text'.drop start).take m.extent.length = (text.drop m.start).take m.extent.length)
    (i : Nat) : Tag.Match.captured ⟨start, m.extent⟩ text' i = m.captured text i := by
  rw [captured, captured, group?, group?]
  cases hg : m.extent.groups[i]? with
  | none => rfl
  | some g =>
    have hstop := hin g (List.mem_of_getElem? hg)
    have hslice (cs : List Char) (k : Nat) : Text.slice cs (Tag.shift k g) =
        (((cs.drop k).take m.extent.length).drop g.start).take (g.stop - g.start) := by
      simp only [Text.slice, Tag.shift]
      rw [List.drop_take, List.take_take, List.drop_drop, Nat.add_comm k,
        Nat.min_eq_left (by omega), Nat.add_sub_add_right]
    simp only [Option.map_some, Option.getD_some, hslice, h]

/-- The numbers of a text are those that can be read, if it is another one without the tags that
cannot. -/
theorem verseNumbers_of_withoutUnread (config : RenderConfig) {t t' : StyledText}
    (hchars : t'.chars = (verseReadings config t.text).withoutUnread t.chars)
    (hmatches : Tag.Pattern.verse.matches t'.text =
      (verseReadings config t.text).readable.map (verseReadings config t.text).moved) :
    verseNumbers t'.text = (verseNumbers t.text).filter readsAsVerse := by
  have hf : Tag.Following 0 ((verseReadings config t.text).map Prod.fst) :=
    map_fst_verseReadings config t.text ▸ Tag.Pattern.verse.following_matches t.text
  have hread : (verseReadings config t.text).readable =
      (Tag.Pattern.verse.matches t.text).filter fun m => readsAsVerse (m.captured t.text 0) :=
    readable_zip_verseAnswers config [] (·.captured t.text 0) _
  have htext : t'.text =
      keepPlaces (fun i => !(verseReadings config t.text).unreadAt i) 0 t.text := by
    rw [t'.text_eq_map_chars, hchars, Readings.withoutUnread, map_keepPlaces, t.text_eq_map_chars]
  have hcaptured : ∀ m ∈ (verseReadings config t.text).readable,
      ((verseReadings config t.text).moved m).captured t'.text 0 = m.captured t.text 0 := by
    intro m hm
    have hmem : m ∈ Tag.Pattern.verse.matches t.text :=
      (List.mem_filter.mp (hread ▸ hm)).1
    obtain ⟨-, hmatch⟩ := Tag.Pattern.match?_of_mem_matches hmem
    refine Tag.Match.captured_eq
      (fun g hg => ((Tag.Pattern.match?_within hmatch).groups g hg).2.2) ?_ 0
    rw [htext, take_drop_keepPlaces (Tag.Pattern.stop_le_of_mem_matches hmem)]
    intro i hlo hhi
    rw [Readings.unreadAt_of_readable hf hm ⟨hlo, hhi⟩]
    rfl
  calc verseNumbers t'.text
      = (verseReadings config t.text).readable.map fun m =>
          ((verseReadings config t.text).moved m).captured t'.text 0 := by
        rw [verseNumbers, hmatches, List.map_map]
        rfl
    _ = (verseReadings config t.text).readable.map fun m => m.captured t.text 0 :=
        List.map_congr_left hcaptured
    _ = (verseNumbers t.text).filter readsAsVerse := by
        rw [hread, verseNumbers, List.filter_map]
        rfl

/-! ## Degradation -/

/-- If no tag can be read the characters stay. -/
theorem Readings.map_fst_left {rs : Readings} (h : ∀ r ∈ rs, r.2 = none) (cs : List StyledChar) :
    (rs.left cs).map Prod.fst = cs.map Prod.fst := by
  have hplace : ∀ p ∈ cs.zipIdx, (rs.leftAt p).map Prod.fst = [p.1.1] := by
    intro p _
    rw [leftAt]
    split
    · rfl
    · rfl
    · rename_i m u hfind
      cases h _ (List.mem_of_find?_eq_some hfind)
  rw [left, List.map_flatMap, List.flatMap_congr hplace, ← List.map_eq_flatMap]
  conv_rhs => rw [← List.zipIdx_map_fst 0 cs, List.map_map]
  rfl

/-- **Inline tags that cannot be read stay as they are written.** In any run of the stage of notes
that is not cancelled, and there is one, each place of the text outside the tags keeps its
character, those of a note that can be read make room for its glyph, and those of another one keep
their characters without styles. The same holds of the stage of verses, where it renders them, once
the labels in front are taken away. A verse tag that cannot be read counts for nothing: the text
without such tags, if the others are its tags, has the same labels in front and at its tags. And if
no tag can be read, and no verse is expected, the text is what it was. -/
theorem inline_degrades (config : RenderConfig) (t : StyledText) :
    ((Stage.note.run config (.always false) t).isSome ∧
      ∀ polls out, Stage.note.run config polls t = some out →
        out.chars = (noteReadings t.text).left t.chars ∧
        ((∀ r ∈ noteReadings t.text, r.2 = none) → out.text = t.text)) ∧
    (config.renderVerses = true →
      (Stage.verse.run config (.always false) t).isSome ∧
      (∀ polls out, Stage.verse.run config polls t = some out →
        out.chars = (labelsInFront config t.text).chars ++
          (verseReadings config t.text).left t.chars ∧
        ((∀ r ∈ verseReadings config t.text, r.2 = none) → config.expected.bounds? = none →
          out.text = t.text)) ∧
      ∀ t' : StyledText, t'.chars = (verseReadings config t.text).withoutUnread t.chars →
        Tag.Pattern.verse.matches t'.text =
          (verseReadings config t.text).readable.map (verseReadings config t.text).moved →
        labelsInFront config t'.text = labelsInFront config t.text ∧
        (verseReadings config t'.text).map Prod.snd =
          ((verseReadings config t.text).map Prod.snd).filter Option.isSome) := by
  constructor
  · refine ⟨by rw [Stage.run_always]; rfl, fun polls out hout => ?_⟩
    have hchars : out.chars = (noteReadings t.text).left t.chars := by
      rw [Stage.eq_apply_of_run hout, chars_apply_note]
    refine ⟨hchars, fun hnone => ?_⟩
    rw [out.text_eq_map_chars, hchars, Readings.map_fst_left hnone, t.text_eq_map_chars]
  · intro hr
    refine ⟨by rw [Stage.run_always]; rfl, fun polls out hout => ?_, fun t' hchars hmatches => ?_⟩
    · have hchars : out.chars = (labelsInFront config t.text).chars ++
          (verseReadings config t.text).left t.chars := by
        rw [Stage.eq_apply_of_run hout, chars_apply_verse hr]
      refine ⟨hchars, fun hnone hbounds => ?_⟩
      have hfront : labelsInFront config t.text = ∅ := by
        rw [labelsInFront, ExpectedVerses.absent, hbounds]
        rfl
      rw [out.text_eq_map_chars, hchars, hfront, StyledText.chars_empty, List.nil_append,
        Readings.map_fst_left hnone, t.text_eq_map_chars]
    · have hnumbers := verseNumbers_of_withoutUnread config hchars hmatches
      constructor
      · rw [labelsInFront, labelsInFront, acceptedVerses, acceptedVerses, hnumbers,
          VerseMarker.acceptFrom_filter]
      · rw [map_snd_verseReadings, map_snd_verseReadings, hnumbers, verseAnswers_filter]

/-- A verse tag and a note that cannot be read, alone and behind a verse tag that can. -/
theorem inline_degrades_of_bad_tags :
    let one := StyledText.plain "<verse number=\"1\" style=\"v\"/>".toList
    let bad := StyledText.styled "<verse number=\"x\" style=\"v\"/>".toList (.ofList [.italic])
    let note := StyledText.plain "<note style=\"f\">b</note>".toList
    Stage.note.run {} (.always false) (bad ++ note) =
        some (bad ++ note) ∧
      (∀ out, Stage.verse.run {} (.always false) (bad ++ note) = some out →
        out.text = (bad ++ note).text) ∧
      labelsInFront {} (one ++ note).text = labelsInFront {} (one ++ bad ++ note).text ∧
      (verseReadings {} (one ++ note).text).map Prod.snd =
        [some ((VerseMarker.single 1).render false)] := by
  intro one bad note
  have hnone : ∀ r ∈ noteReadings (bad ++ note).text, r.2 = none := by decide +kernel
  have hnoneVerse : ∀ r ∈ verseReadings {} (bad ++ note).text, r.2 = none := by decide +kernel
  obtain ⟨⟨-, hnote⟩, hverse⟩ := inline_degrades {} (bad ++ note)
  obtain ⟨-, hverse, -⟩ := hverse rfl
  obtain ⟨-, hbehind⟩ := inline_degrades {} (one ++ bad ++ note)
  obtain ⟨-, -, hbehind⟩ := hbehind rfl
  obtain ⟨hlabels, hsame⟩ := hbehind (one ++ note) (by decide +kernel) (by decide +kernel)
  refine ⟨?_, fun out hout => (hverse _ out hout).2 hnoneVerse rfl, hlabels, ?_⟩
  · obtain ⟨hchars, -⟩ := hnote _ _ (Stage.run_always ..)
    rw [Stage.run_always, Option.some.injEq, StyledText.eq_iff_chars, hchars]
    decide +kernel
  · rw [hsame]
    decide +kernel

end Passage
