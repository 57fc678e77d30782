import Passage.Proofs.Verse.Safety

/-! Completeness of a whole render. The verse stage gives every expected number a label. After it
the note stage puts a glyph, or an unreadable note's bare text, in the place of each note, and with
it go the labels inside the note; the chapter label and Selah stages lose none, since what they
drop of a tag has no label character (`Stage.apply_keeps`). So an expected number is covered once
unless its label stands inside a note, and then it is not covered at all (`verse_completeness`). -/

namespace Passage

open VerseMarker (Apart isLabelChar)

/-! ## Stages that lose no label -/

/-- What the piece reads holds no label character. -/
def Tag.Piece.bare : Tag.Piece → Bool
  | literal l => l.all fun c => !isLabelChar c
  | blanks | someBlanks => true
  | _ => false

theorem Tag.Piece.take?_bare {p : Tag.Piece} (hp : p.bare = true) {cs : List Char} {n : Nat}
    {captured : List Span} (h : p.take? cs = some (n, captured)) :
    ∀ c ∈ cs.take n, isLabelChar c = false := by
  have hblanks : ∀ c ∈ cs.take (cs.takeWhile Text.isBlank).length, isLabelChar c = false := by
    rw [← List.prefix_iff_eq_take.mp (List.takeWhile_prefix _)]
    exact fun c hc => isLabelChar_of_isBlank (List.mem_takeWhile_imp hc)
  cases p with
  | literal l =>
    obtain ⟨rest, hl, he⟩ := Option.map_eq_some_iff.mp h
    obtain rfl := Text.dropLiteral?_eq_some_iff.mp hl
    cases he
    rw [List.take_left]
    intro c hc
    simpa using List.all_eq_true.mp hp c hc
  | blanks =>
    cases h
    exact hblanks
  | someBlanks =>
    simp only [take?] at h
    split at h
    · cases h
    · cases h
      exact hblanks
  | digits | upTo | attributes | content => cases hp

theorem Tag.readPieces?_bare {taken : Nat} {ps : List Tag.Piece}
    (hps : ∀ p ∈ ps, p.bare = true) {cs : List Char} {e : Tag.Extent}
    (h : Tag.readPieces? taken ps cs = some e) :
    ∀ c ∈ cs.take (e.length - taken), isLabelChar c = false := by
  induction ps generalizing taken cs e with
  | nil =>
    cases h
    simp
  | cons p ps ih =>
    obtain ⟨hp, hps⟩ := List.forall_mem_cons.mp hps
    obtain ⟨n, captured, rest, ht, hr, rfl⟩ := Tag.readPieces?_cons_eq_some_iff.mp h
    have hle := (Tag.readPieces?_within hr).taken_le
    have hlen : rest.length - taken = n + (rest.length - (taken + n)) := by omega
    simp only
    rw [hlen, List.take_add]
    exact List.forall_mem_append.mpr ⟨Tag.Piece.take?_bare hp ht, ih hps hr⟩

/-- The content of a block has all labels of the block if the rest of it holds no label
character. -/
theorem pinned_content_whole {t : StyledText} {m : Tag.Match} (ps : List Tag.Piece)
    {closing : List Char} (hps : ∀ p ∈ ps, p.bare = true)
    (hc : (Tag.Piece.literal closing).bare = true)
    (hm : m ∈ (Tag.Pattern.tag (ps ++ [.literal ['>'], .blanks, .content closing])).matches t.text)
    {ns : List VerseMarker} (h : Pinned (t.occurrence m).tag.chars ns) :
    Pinned ((t.occurrence m).group (ps.map Tag.Piece.captures).sum).chars ns := by
  obtain ⟨e, before, after, body, hread, hbefore, hblank, htag, hgroup⟩ := chars_content ps hm
  have hclosing : ∀ c ∈ closing, isLabelChar c = false := by
    intro c hmem
    simpa using List.all_eq_true.mp hc c hmem
  have hfront : ∀ c ∈ before ++ '>' :: after, isLabelChar c = false := by
    refine List.forall_mem_append.mpr ⟨?_, List.forall_mem_cons.mpr ⟨rfl, fun c hmem => ?_⟩⟩
    · rw [hbefore]
      exact Tag.readPieces?_bare hps hread
    · exact isLabelChar_of_isBlank (hblank c hmem)
  obtain ⟨mx, my, mz, rfl, hx, hy, hz⟩ := h.part htag
    (fun c hmem => hfront c (List.mem_of_getLast? hmem))
    (fun c hmem => hclosing c (List.mem_of_mem_head? hmem))
  have hstart : ∀ c ∈ (t.occurrence m).tag.chars.take (before ++ '>' :: after).length,
      isLabelChar c.1 = false := by
    rw [← List.forall_mem_map (P := fun c => isLabelChar c = false), List.map_take, htag,
      List.append_assoc, List.take_left]
    exact hfront
  have hstop : ∀ c ∈ (t.occurrence m).tag.chars.drop ((before ++ '>' :: after).length + body.length),
      isLabelChar c.1 = false := by
    rw [← List.forall_mem_map (P := fun c => isLabelChar c = false), List.map_drop, htag,
      ← List.length_append, List.drop_left]
    exact hclosing
  rw [hgroup, hx.eq_nil_of_forall hstart, hz.eq_nil_of_forall hstop, List.nil_append,
    List.append_nil]
  exact hy

theorem flatten_eq_nil_of_forall₂ {matched : List Tag.Match} {losts : List (List VerseMarker)}
    (h : List.Forall₂ (fun _ lost => lost = []) matched losts) : losts.flatten = [] := by
  induction h with
  | nil => rfl
  | cons hlost _ ih => rw [List.flatten_cons, hlost, ih, List.nil_append]

/-- The chapter label and Selah stages keep all labels. -/
theorem Stage.apply_keeps {s : Stage} (hs : s = chapterLabel ∨ s = selah) (config : RenderConfig)
    {t : StyledText} {ms : List VerseMarker} (h : Pinned t.chars ms) :
    ∃ ms', ms'.Perm ms ∧ Pinned (s.apply config t).chars ms' := by
  have hne : s ≠ verse := by
    rintro rfl
    rcases hs with hs | hs <;> cases hs
  have hrule : ∀ m ∈ s.pattern.matches t.text, ∀ ns, Pinned (t.occurrence m).tag.chars ns →
      Pinned (s.rule config t (t.occurrence m)).chars ns := by
    intro m hm ns hns
    rcases hs with rfl | rfl
    · have hcontent := pinned_content_whole (.literal "<para".toList ::
        Tag.Pattern.styleIs ['c', 'l'] ++ [Tag.Piece.blanks]) (by decide) (by decide) hm hns
      exact hcontent.addStyles (by decide)
    · have hcontent := pinned_content_whole (.literal "<char".toList ::
        Tag.Pattern.styleIs ['q', 's'] ++ [Tag.Piece.blanks]) (by decide) (by decide) hm hns
      exact hcontent.oppositeLine
  have hlosing : ∀ m ∈ s.pattern.matches t.text, ∀ ns, Pinned (t.occurrence m).tag.chars ns →
      ∃ kept lost, (kept ++ lost).Perm ns ∧ lost = [] ∧
        Pinned (s.rule config t (t.occurrence m)).chars kept := by
    intro m hm ns hns
    exact ⟨ns, [], by rw [List.append_nil], rfl, hrule m hm ns hns⟩
  obtain ⟨kept, losts, hperm, hlosts, hkept⟩ := apply_losing hne config hlosing h
  rw [flatten_eq_nil_of_forall₂ hlosts, List.append_nil] at hperm
  exact ⟨kept, hperm, hkept⟩

/-- The note stage loses the labels in notes, and no others. -/
theorem Stage.apply_note_losing (config : RenderConfig) {t : StyledText} {ms : List VerseMarker}
    (h : Pinned t.chars ms) :
    ∃ kept losts, (kept ++ List.flatten losts).Perm ms ∧
      List.Forall₂ (fun m lost => Pinned (t.occurrence m).tag.chars lost)
        (Tag.Pattern.note.matches t.text) losts ∧
      Pinned (note.apply config t).chars kept := by
  have hne : note ≠ verse := by decide
  refine apply_losing hne config (fun m _ ns hns => ?_) h
  exact ⟨[], ns, .refl _, hns, pinned_noteAt (t.occurrence m)⟩

/-! ## Counting -/

/-- A number is in what is kept if it is in the whole and not in what is lost. -/
theorem exists_mem_kept_iff {ms kept lost : List VerseMarker} (hp : (kept ++ lost).Perm ms)
    (ha : ms.Pairwise Apart) (n : Nat) :
    (∃ m ∈ kept, n ∈ m) ↔ (∃ m ∈ ms, n ∈ m) ∧ ¬ ∃ m ∈ lost, n ∈ m := by
  have happ := (hp.pairwise_iff fun h => h.symm).mpr ha
  obtain ⟨-, -, hdisj⟩ := List.pairwise_append.mp happ
  constructor
  · intro ⟨m, hm, hn⟩
    refine ⟨⟨m, hp.subset (List.mem_append_left _ hm), hn⟩, fun ⟨k, hk, hnk⟩ => ?_⟩
    exact hdisj m hm k hk n hn hnk
  · intro ⟨⟨m, hm, hn⟩, hlost⟩
    rcases List.mem_append.mp (hp.mem_iff.mpr hm) with hm | hm
    · exact ⟨m, hm, hn⟩
    · exact absurd ⟨m, hm, hn⟩ hlost

/-- A number is lost if its label stands inside a match. -/
theorem exists_mem_losts_iff {t : StyledText} {matched : List Tag.Match}
    {losts : List (List VerseMarker)}
    (h : List.Forall₂ (fun m lost => Pinned (t.occurrence m).tag.chars lost) matched losts)
    (hf : ∀ m ∈ losts.flatten, m.Fits) (ha : losts.flatten.Pairwise Apart) (n : Nat) :
    (∃ k ∈ losts.flatten, n ∈ k) ↔
      ∃ m ∈ matched, (t.occurrence m).tag.timesCovered n ≠ 0 := by
  induction h with
  | nil => simp
  | @cons m lost matched losts hlost _ ih =>
    rw [List.flatten_cons] at hf ha
    obtain ⟨hfl, hfr⟩ := List.forall_mem_append.mp hf
    obtain ⟨hal, har, -⟩ := List.pairwise_append.mp ha
    have hcount := StyledText.timesCovered_of_pinned hlost hfl hal n
    have hone : (t.occurrence m).tag.timesCovered n ≠ 0 ↔ ∃ k ∈ lost, n ∈ k := by
      rw [hcount]
      split <;> simp_all
    rw [List.flatten_cons, List.exists_mem_cons_iff, hone, ← ih hfr har]
    simp only [List.mem_append, or_and_right, exists_or]

/-! ## The whole render -/

/-- A text as the verse stage of a render meets it. -/
def beforeVerses (config : RenderConfig) (text : List Char) : StyledText :=
  afterStages config (.plain text) (Stage.all.takeWhile (· ≠ .verse))

theorem text_render (config : RenderConfig) (text : List Char) :
    (render config Stage.all (.always false) (.plain text)).text =
      Stage.selah.apply config (Stage.chapterLabel.apply config (Stage.note.apply config
        (Stage.verse.apply config (beforeVerses config text)))) := by
  have hstages : Stage.all = Stage.all.takeWhile (· ≠ .verse) ++
      [.verse, .note, .chapterLabel, .selah] := by decide
  rw [render_always, beforeVerses]
  simp only
  conv_lhs => rw [hstages, afterStages_append]
  rfl

/-- **Each expected number is covered once in the whole output**, but for two exceptions, in which
it is not covered: its accepted tag goes past a bound, or its label stands inside a note when the
note stage meets it. -/
theorem timesCovered_render (config : RenderConfig) (text : List Char)
    (hr : config.renderVerses = true) (hh : config.verseHandler = true)
    (hb : config.expected.Fits) {lo hi : Nat} (hbounds : config.expected.bounds? = some (lo, hi))
    {n : Nat} (hlo : lo ≤ n) (hhi : n ≤ hi) :
    let met := beforeVerses config text
    let labelled := Stage.verse.apply config met
    (render config Stage.all (.always false) (.plain text)).text.timesCovered n =
      if (∃ m ∈ acceptedVerses met.text, n ∈ m ∧ (m.first < lo ∨ hi < m.last)) ∨
          ∃ m ∈ Tag.Pattern.note.matches labelled.text,
            (labelled.occurrence m).tag.timesCovered n ≠ 0 then 0
      else 1 := by
  intro met labelled
  have hbefore : Stage.verse ∉ Stage.all.takeWhile (· ≠ .verse) := by decide
  obtain ⟨ms₀, hsub, hmet⟩ := afterStages_pinned config hbefore (.plain text)
  rw [List.sublist_nil.mp hsub, Pinned.nil_iff] at hmet
  have hms := Exposable.exposed hb met.text
  have hlabelled : Pinned labelled.chars (exposed config (acceptedVerses met.text)) := by
    rw [show labelled = verseOutput config met from Stage.apply_verse config met]
    exact pinned_verseOutput config hmet
  obtain ⟨kept, losts, hperm, hlosts, hkept⟩ := Stage.apply_note_losing config hlabelled
  obtain ⟨ms₁, hperm₁, h₁⟩ := Stage.apply_keeps (.inl rfl) config hkept
  obtain ⟨ms₂, hperm₂, h₂⟩ := Stage.apply_keeps (.inr rfl) config h₁
  have hout : ms₂.Perm kept := hperm₂.trans hperm₁
  have happ := (hperm.pairwise_iff fun h => VerseMarker.Apart.symm h).mpr hms.apart
  obtain ⟨hkeptApart, hlostApart, -⟩ := List.pairwise_append.mp happ
  have hkeptFits : ∀ m ∈ ms₂, m.Fits := fun m hm =>
    hms.fits m (hperm.subset (List.mem_append_left _ (hout.subset hm)))
  have hlostFits : ∀ m ∈ losts.flatten, m.Fits := fun m hm =>
    hms.fits m (hperm.subset (List.mem_append_right _ hm))
  have houtApart := (hout.pairwise_iff fun h => VerseMarker.Apart.symm h).mpr hkeptApart
  have hcovered : (∃ m ∈ ms₂, n ∈ m) ↔
      (¬ ∃ m ∈ acceptedVerses met.text, n ∈ m ∧ (m.first < lo ∨ hi < m.last)) ∧
        ¬ ∃ m ∈ Tag.Pattern.note.matches labelled.text,
          (labelled.occurrence m).tag.timesCovered n ≠ 0 := by
    calc (∃ m ∈ ms₂, n ∈ m)
      _ ↔ ∃ m ∈ kept, n ∈ m := by simp only [hout.mem_iff]
      _ ↔ _ := exists_mem_kept_iff hperm hms.apart n
      _ ↔ _ := and_congr
          (exists_mem_exposed_iff hr hh hbounds (acceptedVerses_apart met.text) hlo hhi)
          (not_congr (exists_mem_losts_iff hlosts hlostFits hlostApart n))
  rw [text_render, StyledText.timesCovered_of_pinned h₂ hkeptFits houtApart]
  simp only [hcovered, ← not_or, ite_not]

/-- **Each expected number is covered once, unless its label stands inside a note**, whatever stands
around the tags, if every tag that reads names a single verse. A label inside a note goes with the
note, and its number is not covered. -/
theorem verse_completeness (config : RenderConfig) (text : List Char)
    (hr : config.renderVerses = true) (hh : config.verseHandler = true)
    (hb : config.expected.Fits) {lo hi : Nat} (hbounds : config.expected.bounds? = some (lo, hi))
    (hsingle : ∀ cs ∈ verseNumbers (beforeVerses config text).text, ∀ m,
      VerseMarker.parse cs = .ok m → m.first = m.last) :
    let labelled := Stage.verse.apply config (beforeVerses config text)
    ∀ n, lo ≤ n → n ≤ hi →
      (render config Stage.all (.always false) (.plain text)).text.timesCovered n =
        if ∃ m ∈ Tag.Pattern.note.matches labelled.text,
          (labelled.occurrence m).tag.timesCovered n ≠ 0 then 0 else 1 := by
  intro labelled n hlo hhi
  have hinside : ¬ ∃ m ∈ acceptedVerses (beforeVerses config text).text,
      n ∈ m ∧ (m.first < lo ∨ hi < m.last) := by
    intro ⟨m, hm, ⟨hfirst, hlast⟩, hout⟩
    obtain ⟨cs, hcs, hparse⟩ := VerseMarker.exists_parse_of_mem_acceptFrom hm
    have hone := hsingle cs hcs m hparse
    omega
  rw [timesCovered_render config text hr hh hb hbounds hlo hhi]
  simp only [hinside, false_or, labelled]

/-- Verse 1 has a tag in the text and verse 2 has none; the tag of verse 3 stands in a footnote. -/
theorem verse_completeness_with_footnote :
    let config : RenderConfig := { expected := .range 1 3 (by decide), verseHandler := true }
    let text := ("<verse number=\"1\" style=\"v\"/>a<note caller=\"+\" style=\"f\">b " ++
      "<verse number=\"3\" style=\"v\"/></note>").toList
    let out := (render config Stage.all (.always false) (.plain text)).text
    config.expected.Fits ∧ out.timesCovered 1 = 1 ∧ out.timesCovered 2 = 1 ∧
      out.timesCovered 3 = 0 := by
  intro config text out
  have hfits : config.expected.Fits := by
    rintro lo hi ⟨⟩
    decide
  have hbefore : beforeVerses config text = .plain text := by decide +kernel
  have hnumbers : verseNumbers text = [['1'], ['3']] := by decide +kernel
  have hsingle : ∀ cs ∈ verseNumbers (beforeVerses config text).text, ∀ m,
      VerseMarker.parse cs = .ok m → m.first = m.last := by
    intro cs hcs m hm
    rw [hbefore, StyledText.text_plain, hnumbers] at hcs
    rcases List.mem_pair.mp hcs with rfl | rfl
    · cases (show VerseMarker.parse ['1'] = .ok (.single 1) by decide).symm.trans hm
      rfl
    · cases (show VerseMarker.parse ['3'] = .ok (.single 3) by decide).symm.trans hm
      rfl
  have h := verse_completeness config text rfl rfl hfits rfl hsingle
  have hlabelled : Stage.verse.apply config (.plain text) =
      (VerseMarker.single 2).render true ++ (VerseMarker.single 1).render true ++
        .plain "a<note caller=\"+\" style=\"f\">b ".toList ++
        (VerseMarker.single 3).render true ++ .plain "</note>".toList := by
    decide +kernel
  simp only [hbefore, hlabelled] at h
  refine ⟨hfits, ?_, ?_, ?_⟩
  · rw [h 1 (by decide) (by decide)]
    decide +kernel
  · rw [h 2 (by decide) (by decide)]
    decide +kernel
  · rw [h 3 (by decide) (by decide)]
    decide +kernel

/-- The one tag of verse 3 stands in a footnote, and the output has no target for verse 3. -/
theorem verse_lost_in_footnote :
    let config : RenderConfig := { expected := .single 3, verseHandler := true }
    let text := ("<note caller=\"+\" style=\"f\"><char style=\"ft\">see " ++
      "<verse number=\"3\" style=\"v\" />there</char></note>").toList
    config.renderVerses = true ∧ config.expected.bounds? = some (3, 3) ∧
      verseNumbers text = [['3']] ∧ VerseMarker.parse ['3'] = .ok (.single 3) ∧
      (render config Stage.all (.always false) (.plain text)).text.timesCovered 3 = 0 := by
  decide +kernel

end Passage
