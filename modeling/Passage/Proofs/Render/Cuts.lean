import Passage.Proofs.Render.Loop
import Passage.Render.Held

/-! No cut of a render fails. Matches follow one another inside the text, and so do their captured
parts, so each range that a stage cuts out starts and ends between characters of the text
(`Cutting.Gives`). From this every stage gives the held form of what it gives for the styled text,
whatever the stages before it made of that, and so does the render (`Held.render_fits`). -/

namespace Passage

/-! ## Computations that do not fail -/

namespace Cutting

variable {α β : Type}

/-- The computation gives the result, and all its cuts fit. -/
structure Gives (x : Cutting α) (a : α) : Prop where
  result : x.result = some a
  fits : ∀ c ∈ x.cuts, c.Fits

theorem Gives.pure (a : α) : Gives (Pure.pure a) a :=
  ⟨rfl, fun _ h => absurd h List.not_mem_nil⟩

theorem Gives.bind {x : Cutting α} {f : α → Cutting β} {a : α} {b : β} (hx : x.Gives a)
    (hf : (f a).Gives b) : (x >>= f).Gives b := by
  have hbind : (x >>= f) = ⟨(f a).result, x.cuts ++ (f a).cuts⟩ := by
    change Cutting.bind x f = _
    rw [Cutting.bind, hx.result]
  rw [hbind]
  exact ⟨hf.result, List.forall_mem_append.mpr ⟨hx.fits, hf.fits⟩⟩

theorem Gives.lift {o : Option α} {a : α} (h : o = some a) : (Cutting.lift o).Gives a :=
  ⟨h, fun _ h => absurd h List.not_mem_nil⟩

theorem Gives.congr {x : Cutting α} {a b : α} (h : x.Gives a) (he : a = b) : x.Gives b :=
  he ▸ h

end Cutting

/-! ## Cutting at byte offsets -/

namespace Cutting

theorem gives_bytes {cs front mid back : List Char} (h : cs = front ++ (mid ++ back)) :
    (bytes cs ⟨Text.byteLength front, Text.byteLength front + Text.byteLength mid⟩).Gives mid := by
  subst h
  refine ⟨?_, List.forall_mem_singleton.mpr ⟨Nat.le_add_right _ _, ?_, ?_⟩⟩
  · simp only [bytes]
    rw [if_pos (Nat.le_add_right _ _), Text.sliceBytes?_append]
  · exact ⟨front, mid ++ back, rfl, rfl⟩
  · exact ⟨front ++ mid, back, (List.append_assoc ..).symm, Text.byteLength_append front mid⟩

theorem gives_place {cs : List Char} {s : Span} (h : s.start ≤ s.stop) (hle : s.stop ≤ cs.length) :
    (place cs s).Gives
      ⟨Text.byteLength (cs.take s.start), Text.byteLength (cs.take s.stop)⟩ := by
  refine .lift ?_
  rw [if_pos ⟨h, hle⟩, Text.byteSpan_eq cs h]

/-- The bytes of a span of characters. -/
theorem gives_bytes_take (cs : List Char) {a b : Nat} (h : a ≤ b) :
    (bytes cs ⟨Text.byteLength (cs.take a), Text.byteLength (cs.take b)⟩).Gives
      (Text.slice cs ⟨a, b⟩) := by
  have htake : cs.take b = cs.take a ++ Text.slice cs ⟨a, b⟩ := by
    rw [Text.slice, ← List.take_add, Nat.add_sub_of_le h]
  have hcs : cs = cs.take a ++ (Text.slice cs ⟨a, b⟩ ++ cs.drop b) := by
    rw [← List.append_assoc, ← htake, List.take_append_drop]
  have hgives := gives_bytes hcs
  rwa [← Text.byteLength_append, ← htake] at hgives

theorem gives_dropLastBytes (front back : List Char) :
    (dropLastBytes (Text.byteLength back) (front ++ back)).Gives front := by
  have hgives := gives_bytes (show front ++ back = [] ++ (front ++ back) from rfl)
  rw [show Text.byteLength [] = 0 from rfl, Nat.zero_add] at hgives
  rw [dropLastBytes, Text.byteLength_append, if_pos (Nat.le_add_left _ _), Nat.add_sub_cancel]
  exact hgives

end Cutting

namespace RangedText

/-- The ranges of marks lie between characters. -/
theorem fits_of_mem_marks {t : StyledText} {k : Mark} (h : k ∈ t.ranged.marks) :
    Cut.Fits ⟨t.text, k.range⟩ := by
  obtain ⟨q, hq, rfl⟩ := List.mem_map.mp h
  obtain ⟨front, back, htext, hstart⟩ := Run.exists_text_of_mem_placedFrom hq
  have hstop := (Run.place_of_mem_placedFrom hq).2
  rw [Nat.zero_add] at hstart
  refine ⟨?_, ⟨front, q.2.text ++ back, htext, hstart.symm⟩, ⟨front ++ q.2.text, back, ?_, ?_⟩⟩
  · simp only
    omega
  · rw [List.append_assoc]
    exact htext
  · simp only
    rw [Text.byteLength_append, hstop, hstart]

theorem fits_reads (t : StyledText) : ∀ c ∈ t.ranged.reads, c.Fits := by
  intro c hc
  obtain ⟨k, hk, rfl⟩ := List.mem_map.mp hc
  exact fits_of_mem_marks hk

/-- What of a mark lies in a range starts and ends where one of the two does. -/
theorem fits_of_readIn? {t : StyledText} {range : Span} {k : Mark} {c : Cut}
    (hk : k ∈ t.ranged.marks) (hrange : Cut.Fits ⟨t.text, range⟩)
    (hc : t.ranged.readIn? range k = some c) : c.Fits := by
  have hmark := fits_of_mem_marks hk
  simp only [readIn?] at hc
  split at hc
  · rename_i hlt
    cases hc
    refine ⟨Nat.le_of_lt hlt, ?_, ?_⟩
    · rcases Nat.le_total k.range.start range.start with hle | hle
      · rw [Nat.max_eq_right hle]
        exact hrange.start
      · rw [Nat.max_eq_left hle]
        exact hmark.start
    · rcases Nat.le_total k.range.stop range.stop with hle | hle
      · rw [Nat.min_eq_left hle]
        exact hmark.stop
      · rw [Nat.min_eq_right hle]
        exact hrange.stop
  · cases hc

theorem gives_cut (t : StyledText) {a b : Nat} (hab : a ≤ b) (hb : b ≤ t.text.length) :
    (t.ranged.cut ⟨Text.byteLength (t.text.take a), Text.byteLength (t.text.take b)⟩).Gives
      (t.extract ⟨a, b⟩).ranged := by
  have hrange := (Cutting.gives_bytes_take t.text hab).fits _ List.mem_cons_self
  refine ⟨t.ranged_slice?_take hab hb, List.forall_mem_cons.mpr ⟨hrange, fun c hc => ?_⟩⟩
  obtain ⟨k, hk, hread⟩ := List.mem_filterMap.mp hc
  have hmarks : k ∈ t.ranged.marks :=
    (List.dropWhile_sublist _).subset ((List.takeWhile_sublist _).subset hk)
  exact fits_of_readIn? hmarks hrange hread

theorem gives_append (t u : StyledText) : (t.ranged.append u.ranged).Gives (t ++ u).ranged :=
  ⟨ranged_append? t u, fits_reads u⟩

theorem gives_mapMarks (f : List Char → List Char) (t : StyledText) :
    (t.ranged.mapMarks f).Gives (t.mapText f).ranged :=
  ⟨ranged_mapText? f t, fits_reads t⟩

variable {t : StyledText} {p : Tag.Pattern} {m : Tag.Match}

/-- A captured part of a match lies in the text. -/
theorem within_of_group? (hm : m ∈ p.matches t.text) {i : Nat} {s : Span}
    (hs : m.group? i = some s) : s.start ≤ s.stop ∧ s.stop ≤ t.text.length := by
  obtain ⟨g, hg, rfl⟩ := Option.map_eq_some_iff.mp hs
  have hwithin := Tag.Pattern.match?_within (Tag.Pattern.match?_of_mem_matches hm).2
  have hpart := hwithin.groups g (List.mem_of_getElem? hg)
  have hstop := Tag.Pattern.stop_le_of_mem_matches hm
  simp only [Tag.Match.span] at hstop
  simp only [Tag.shift]
  omega

theorem gives_group (hm : m ∈ p.matches t.text) (i : Nat) :
    (t.ranged.group m i).Gives ((t.occurrence m).group i).ranged := by
  have hchars := StyledText.chars_group hm i
  unfold group
  cases hs : m.group? i with
  | none =>
    rw [hs] at hchars
    have hempty : (t.occurrence m).group i = ∅ := StyledText.eq_iff_chars.mpr hchars
    rw [hempty]
    exact .pure _
  | some s =>
    rw [hs] at hchars
    obtain ⟨hle, hstop⟩ := within_of_group? hm hs
    refine (Cutting.gives_place hle hstop).bind ((gives_cut t hle hstop).congr ?_)
    refine congrArg StyledText.ranged (StyledText.eq_iff_chars.mpr ?_)
    rw [hchars, StyledText.chars_extract]
    rfl

theorem gives_groupChars (hm : m ∈ p.matches t.text) (i : Nat) :
    (t.ranged.groupChars m i).Gives ((t.occurrence m).group i).text := by
  have htext := StyledText.text_group hm i
  unfold groupChars
  cases hs : m.group? i with
  | none =>
    rw [hs] at htext
    exact (Cutting.Gives.pure _).congr htext.symm
  | some s =>
    rw [hs] at htext
    obtain ⟨hle, hstop⟩ := within_of_group? hm hs
    exact (Cutting.gives_place hle hstop).bind ((Cutting.gives_bytes_take _ hle).congr htext.symm)

theorem gives_placeOf (hm : m ∈ p.matches t.text) :
    (Cutting.place t.text m.span).Gives
      ⟨Text.byteLength (t.text.take m.start), Text.byteLength (t.text.take m.span.stop)⟩ :=
  Cutting.gives_place (Nat.le_add_right _ _) (Tag.Pattern.stop_le_of_mem_matches hm)

theorem plain_eq (cs : List Char) : plain cs = (StyledText.plain cs).ranged :=
  (ranged_push ∅ cs ∅).trans (congrArg StyledText.ranged (StyledText.empty_append _))

theorem styled_eq (cs : List Char) (attributes : List Attribute) :
    styled cs attributes = (StyledText.styled cs (.ofList attributes)).ranged :=
  (ranged_push ∅ cs _).trans (congrArg StyledText.ranged (StyledText.empty_append _))

theorem gives_raw (hm : m ∈ p.matches t.text) :
    (t.ranged.raw m).Gives (t.occurrence m).raw.ranged := by
  have htext : (t.extract m.span).text = Text.slice t.text m.span := by
    simp [StyledText.text_eq_map_chars, Text.slice]
  have hspan : m.span.start ≤ m.span.stop := Nat.le_add_right _ _
  refine (gives_placeOf hm).bind ((Cutting.gives_bytes_take _ hspan).bind ?_)
  refine (Cutting.Gives.pure _).congr ?_
  rw [plain_eq, Occurrence.raw, StyledText.occurrence, htext]
  rfl

end RangedText

/-! ## The loop over the matches -/

namespace Held

variable {σ : Type} {t : StyledText} {p : Tag.Pattern}

/-- How a pass over held text ends, told by what the pass over styled text gives. -/
def outcome (output : Option StyledText) : RewriteOutcome :=
  match output with
  | some out => .completed out.ranged
  | none => .cancelled

/-- A rule over held text gives what the rule over styled text gives, for each of the matches. -/
def Follows (t : StyledText) (ms : List Tag.Match)
    (held : σ → Tag.Match → Cutting (RangedText × σ)) (rule : σ → Occurrence → StyledText × σ) :
    Prop :=
  ∀ m ∈ ms, ∀ s,
    (held s m).Gives ((rule s (t.occurrence m)).1.ranged, (rule s (t.occurrence m)).2)

/-- The loop from any match on, with `o` put together so far. -/
theorem gives_rewriteFrom {held : σ → Tag.Match → Cutting (RangedText × σ)}
    {rule : σ → Occurrence → StyledText × σ} {polls : Polls} {i offset : Nat} {s : σ}
    {o : StyledText} {ms : List Tag.Match} {r : σ × RewriteOutcome}
    (hrule : Follows t ms held rule) (hm : Tag.Following offset ms)
    (hw : ∀ m ∈ ms, m.span.stop ≤ t.text.length) (ho : offset ≤ t.text.length)
    (hr : t.ranged.rewriteFrom? polls (t.called rule) i s (Text.byteLength (t.text.take offset))
      o.ranged ms = some r) :
    (rewriteFrom t.ranged polls held i s (Text.byteLength (t.text.take offset)) o.ranged ms).Gives
      r := by
  induction ms generalizing i offset s o with
  | nil =>
    have hgap := RangedText.gives_cut t ho (Nat.le_refl _)
    rw [List.take_length] at hgap
    have hlast := hgap.result
    simp only [RangedText.cut] at hlast
    simp [RangedText.rewriteFrom?, hlast, RangedText.ranged_append?] at hr
    subst hr
    exact hgap.bind ((RangedText.gives_append o _).bind (.pure _))
  | cons m ms ih =>
    obtain ⟨hle, hms⟩ := hm
    obtain ⟨hstop, hw⟩ := List.forall_mem_cons.mp hw
    obtain ⟨hfirst, hrule⟩ := List.forall_mem_cons.mp hrule
    have hspan : m.start ≤ m.span.stop := Nat.le_add_right _ _
    unfold rewriteFrom
    cases hi : polls i with
    | true =>
      rw [RangedText.rewriteFrom?, hi, if_pos rfl, Option.some_inj] at hr
      subst hr
      exact .pure _
    | false =>
      rw [rewriteFrom?_cons t rule o hi hle hstop] at hr
      refine (Cutting.gives_place hspan hstop).bind ?_
      refine (RangedText.gives_cut t hle (Nat.le_trans hspan hstop)).bind ?_
      refine (RangedText.gives_append o _).bind ?_
      refine (hfirst s).bind ?_
      exact (RangedText.gives_append _ _).bind (ih hrule hms hw hstop hr)

/-- The pass of a rule with a state. -/
theorem gives_rewriteFrom_matches {held : σ → Tag.Match → Cutting (RangedText × σ)}
    (rule : σ → Occurrence → StyledText × σ) (polls : Polls) (s : σ)
    (hrule : Follows t (p.matches t.text) held rule) :
    (rewriteFrom t.ranged polls held 0 s 0 ∅ (p.matches t.text)).Gives
      ((t.replaceWith p polls rule s).1, outcome (t.replaceWith p polls rule s).2) := by
  obtain ⟨k, hk⟩ := polls.exists_stopsAfter 0 (p.matches t.text).length
  refine gives_rewriteFrom (o := ∅) hrule (p.following_matches t.text)
    (fun m hm => Tag.Pattern.stop_le_of_mem_matches hm) (Nat.zero_le _) ?_
  rw [replaceWith_of_stopsAfter t p rule s hk]
  refine (rewrite?_of_stopsAfter t p rule s hk).trans ?_
  split <;> rfl

/-- The pass of a rule without state. -/
theorem gives_rewrite {held : Tag.Match → Cutting RangedText} {rule : Occurrence → StyledText}
    (polls : Polls)
    (hrule : ∀ m ∈ p.matches t.text, (held m).Gives (rule (t.occurrence m)).ranged) :
    (rewrite t.ranged p polls held).Gives (outcome (t.replace p polls rule)) := by
  refine (gives_rewriteFrom_matches (fun (_ : Unit) o => (rule o, ())) polls () ?_).bind (.pure _)
  intro m hm _
  exact (hrule m hm).bind (.pure _)

/-! ## The rules of the stages -/

variable {m : Tag.Match}

/-- A match starts at byte 0 exactly if it opens the text. -/
theorem start_eq_zero_iff (hm : m ∈ p.matches t.text) :
    Text.byteLength (t.text.take m.start) = 0 ↔ m.start = 0 := by
  have hlt := (Tag.Pattern.match?_of_mem_matches hm).1
  have hne : t.text ≠ [] := List.ne_nil_of_length_pos (Nat.lt_of_le_of_lt (Nat.zero_le _) hlt)
  rw [Text.byteLength_eq_zero_iff, List.take_eq_nil_iff, or_iff_left hne]

/-- The line break that may stand before other text. -/
theorem lead_eq (c : Prop) [Decidable c] :
    (if c then .plain ['\n'] else ∅ : RangedText) =
      (StyledText.plain (if c then ['\n'] else [])).ranged := by
  split
  · exact RangedText.plain_eq _
  · rfl

/-- The line break that may stand after other text. -/
theorem trail_eq (c : Prop) [Decidable c] (u : StyledText) :
    (if c then u.ranged.push ['\n'] ∅ else u.ranged) =
      (u ++ .plain (if c then ['\n'] else [])).ranged := by
  split
  · exact RangedText.ranged_push u _ _
  · refine congrArg StyledText.ranged ?_
    simp [StyledText.eq_iff_chars]

theorem gives_heading (hm : m ∈ p.matches t.text) :
    (heading t.ranged m).Gives (Block.heading ((t.occurrence m).group 0)).ranged := by
  refine (RangedText.gives_group hm 0).bind ((Cutting.Gives.pure _).congr ?_)
  rw [RangedText.ranged_addStyles, RangedText.ranged_push]
  rfl

theorem gives_majorHeading (suppress : Bool) (hm : m ∈ p.matches t.text) :
    (majorHeading suppress t.ranged m).Gives
      (Block.majorHeadingAt suppress (t.occurrence m)).ranged := by
  have hstart : (Text.byteLength (t.text.take m.start) == 0) = (m.start == 0) :=
    Bool.eq_iff_iff.mpr (by simpa only [beq_iff_eq] using start_eq_zero_iff hm)
  have hfound : (t.occurrence m).found = m := rfl
  refine (RangedText.gives_placeOf hm).bind ?_
  rw [Block.majorHeadingAt, hfound]
  simp only [hstart]
  split
  · exact .pure _
  · refine (RangedText.gives_group hm 0).bind ?_
    refine (RangedText.gives_mapMarks _ _).bind ((Cutting.Gives.pure _).congr ?_)
    rw [RangedText.ranged_addStyles, RangedText.ranged_push]
    rfl

theorem gives_paragraph (hm : m ∈ p.matches t.text) :
    (paragraph t.ranged m).Gives (Block.paragraphAt (t.occurrence m)).ranged := by
  have hstart : 0 < Text.byteLength (t.text.take m.start) ↔ 0 < m.start := by
    rw [Nat.pos_iff_ne_zero, Nat.pos_iff_ne_zero, Ne, start_eq_zero_iff hm]
  have hfound : (t.occurrence m).found = m := rfl
  refine (RangedText.gives_placeOf hm).bind ?_
  simp only [hstart, lead_eq, RangedText.ranged_push]
  refine (RangedText.gives_group hm 0).bind ((RangedText.gives_append _ _).bind ?_)
  refine (Cutting.Gives.pure _).congr ?_
  rw [RangedText.ranged_push, Block.paragraphAt, hfound]
  refine congrArg StyledText.ranged ?_
  by_cases h : 0 < m.start
  · simp [StyledText.eq_iff_chars, h]
  · simp [StyledText.eq_iff_chars, h]

theorem gives_chapterLabel (hm : m ∈ p.matches t.text) :
    (chapterLabel t.ranged m).Gives (Block.chapterLabel ((t.occurrence m).group 0)).ranged := by
  refine (RangedText.gives_group hm 0).bind ((Cutting.Gives.pure _).congr ?_)
  rw [RangedText.ranged_addStyles]
  rfl

theorem gives_oppositeLine (hm : m ∈ p.matches t.text) :
    (oppositeLine t.ranged m).Gives (Block.oppositeLine ((t.occurrence m).group 0)).ranged := by
  refine (RangedText.gives_group hm 0).bind ?_
  rw [RangedText.plain_eq, RangedText.ranged_addStyles]
  exact RangedText.gives_append _ _

/-- An indent is shortened by two bytes only where it has four or more. -/
theorem gives_indent (level : Nat) (content : List Char) :
    (indentOf level content).Gives (List.replicate (Poetry.indentWidth level content) ' ') := by
  have hindent : Block.indent = List.replicate 4 ' ' := rfl
  simp only [indentOf, hindent, List.flatten_replicate_replicate, Poetry.indentWidth]
  split
  · rename_i hout
    have hlevel : 0 < level := by
      rw [Bool.and_eq_true, decide_eq_true_eq] at hout
      exact hout.1
    have hwidth : List.replicate (level * 4) ' ' =
        List.replicate (4 * level - 2) ' ' ++ List.replicate 2 ' ' := by
      rw [List.replicate_append_replicate]
      congr 1
      omega
    rw [hwidth]
    exact Cutting.gives_dropLastBytes _ (List.replicate 2 ' ')
  · rw [Nat.mul_comm]
    exact .pure _

theorem gives_poeticLine (hm : m ∈ p.matches t.text) :
    (poeticLine t.ranged m).Gives (Poetry.lineAt t.text (t.occurrence m)).ranged := by
  have hfound : (t.occurrence m).found = m := rfl
  have hstop := Tag.Pattern.stop_le_of_mem_matches hm
  refine (RangedText.gives_groupChars hm 0).bind ?_
  refine (RangedText.gives_group hm 1).bind ?_
  have hbefore := Cutting.gives_bytes_take t.text (Nat.zero_le m.start)
  have hafter := Cutting.gives_bytes_take t.text hstop
  rw [List.take_length] at hafter
  simp only [RangedText.ranged_addStyles]
  refine (gives_indent _ _).bind ((RangedText.gives_placeOf hm).bind (hbefore.bind ?_))
  simp only [lead_eq, RangedText.ranged_push]
  refine (RangedText.gives_append _ _).bind (hafter.bind ((Cutting.Gives.pure _).congr ?_))
  have hfront : Text.slice t.text ⟨0, m.start⟩ = t.text.take m.start := by simp [Text.slice]
  have hback : Text.slice t.text ⟨m.span.stop, t.text.length⟩ = t.text.drop m.span.stop := by
    simp [Text.slice, ← List.length_drop]
  have hspan : (t.occurrence m).found.span = ⟨m.start, m.span.stop⟩ := rfl
  rw [hfront, hback, trail_eq, Poetry.lineAt, hspan]
  refine congrArg StyledText.ranged ?_
  simp [StyledText.eq_iff_chars, StyledText.plain]

theorem gives_note (hm : m ∈ p.matches t.text) :
    (note t.ranged m).Gives (noteAt (t.occurrence m)).ranged := by
  refine (RangedText.gives_groupChars hm 0).bind ((RangedText.gives_groupChars hm 1).bind ?_)
  rw [noteAt]
  cases NoteMarker.parse ((t.occurrence m).group 0).text ((t.occurrence m).group 1).text with
  | ok n => exact (Cutting.Gives.pure _).congr (RangedText.styled_eq _ _)
  | error e => exact RangedText.gives_raw hm

theorem held_eq (marker : VerseMarker) (tappable : Bool) :
    marker.held tappable = (marker.render tappable).ranged := by
  rw [VerseMarker.held, RangedText.styled_eq, RangedText.ranged_push]
  rfl

theorem verseLabel_eq (config : RenderConfig) (marker : VerseMarker) :
    verseLabel config marker = .plain (if config.breakBeforeVerses then ['\n'] else []) ++
      marker.render config.verseHandler := by
  rw [verseLabel]
  split
  · rfl
  · simp [StyledText.eq_iff_chars]

theorem gives_verse (config : RenderConfig) (found : VerseSet) (hm : m ∈ p.matches t.text) :
    (verse config t.ranged found m).Gives
      ((verseAt config found (t.occurrence m)).1.ranged,
        (verseAt config found (t.occurrence m)).2) := by
  unfold verse verseAt
  split
  · refine (RangedText.gives_groupChars hm 0).bind ?_
    cases VerseMarker.parse ((t.occurrence m).group 0).text with
    | error e => exact (RangedText.gives_raw hm).bind (.pure _)
    | ok marker =>
      simp only [lead_eq, held_eq]
      cases found.insert? marker with
      | none => exact .pure _
      | some found =>
        simp only
        split
        · refine (RangedText.gives_append _ _).bind ((Cutting.Gives.pure _).congr ?_)
          rw [verseLabel_eq]
        · exact .pure _
  · exact .pure _

/-- The labels are put together one after the other. -/
theorem gives_labels (config : RenderConfig) (out : StyledText) (ns : List Nat) :
    (labels config out.ranged ns).Gives (out ++ StyledText.concat (ns.map fun n =>
      (VerseMarker.single n).render config.verseHandler)).ranged := by
  induction ns generalizing out with
  | nil =>
    refine (Cutting.Gives.pure _).congr (congrArg StyledText.ranged ?_)
    simp [StyledText.eq_iff_chars]
  | cons n ns ih =>
    rw [labels, held_eq]
    refine (RangedText.gives_append _ _).bind ((ih _).congr (congrArg StyledText.ranged ?_))
    simp [StyledText.eq_iff_chars]

theorem gives_versePass (config : RenderConfig) (polls : Polls) (t : StyledText) :
    (versePass config t.ranged polls).Gives (outcome (Passage.versePass config polls t)) := by
  have hrule : Follows t (Tag.Pattern.verse.matches t.text) (verse config t.ranged)
      (verseAt config) := fun m hm found => gives_verse config found hm
  have hloop := gives_rewriteFrom_matches (verseAt config) polls ∅ hrule
  unfold versePass Passage.versePass
  refine hloop.bind ?_
  generalize t.replaceWith .verse polls (verseAt config) ∅ = pass
  obtain ⟨found, output⟩ := pass
  cases output with
  | none => exact .pure _
  | some out =>
    have hnone : config.expected.missing found = [] →
        missingLabels config found ++ out = out := by
      intro hmissing
      simp [StyledText.eq_iff_chars, missingLabels, hmissing]
    simp only [outcome, Option.map_some]
    split
    · rename_i hlabels
      rw [if_pos (Bool.and_eq_true_iff.mp hlabels).1]
      refine (gives_labels config ∅ _).bind ?_
      rw [StyledText.empty_append]
      exact (RangedText.gives_append _ _).bind (.pure _)
    · rename_i hlabels
      refine (Cutting.Gives.pure _).congr (congrArg RewriteOutcome.completed ?_)
      split
      · rename_i hverses
        rw [hverses, Bool.true_and, Bool.not_eq_true', Bool.not_eq_false, List.isEmpty_iff] at hlabels
        rw [hnone hlabels]
      · rfl

/-! ## The stages and the render -/

/-- Each stage gives the held form of what it gives for the styled text. -/
theorem gives_run (config : RenderConfig) (polls : Polls) (t : StyledText) (s : Stage) :
    (run config polls t.ranged s).Gives (outcome (s.run config polls t)) := by
  cases s with
  | trim => exact gives_rewrite polls fun m _ => .pure _
  | lineBreaks | whitespace =>
    exact gives_rewrite polls fun m _ => (Cutting.Gives.pure _).congr (RangedText.plain_eq _)
  | blankLine =>
    exact gives_rewrite polls fun m _ => (Cutting.Gives.pure _).congr (RangedText.plain_eq _)
  | majorSectionHeading => exact gives_rewrite polls fun m hm => gives_majorHeading _ hm
  | sectionHeading => exact gives_rewrite polls fun m hm => gives_heading hm
  | paragraph => exact gives_rewrite polls fun m hm => gives_paragraph hm
  | poeticLine => exact gives_rewrite polls fun m hm => gives_poeticLine hm
  | rightAlignedPoeticLine => exact gives_rewrite polls fun m hm => gives_oppositeLine hm
  | selah => exact gives_rewrite polls fun m hm => gives_oppositeLine hm
  | verse => exact gives_versePass config polls t
  | note => exact gives_rewrite polls fun m hm => gives_note hm
  | chapterLabel => exact gives_rewrite polls fun m hm => gives_chapterLabel hm

/-- The report of a render over held text, told by the one over styled text. -/
def reportOf (r : Passage.Report) : Report :=
  ⟨r.text.ranged, r.completed, r.cancelled⟩

theorem gives_renderWith (config : RenderConfig) (stopAfter : Option Stage) (polls : Polls)
    (asked : Nat) (stages : List Stage) (t : StyledText) :
    (renderWith config stopAfter polls asked t.ranged stages).Gives
      (reportOf (Passage.renderWith config stopAfter polls asked stages t)) := by
  induction stages generalizing polls asked t with
  | nil => exact .pure _
  | cons s stages ih =>
    unfold renderWith Passage.renderWith
    split
    · exact .pure _
    · refine (gives_run config _ t s).bind ?_
      cases s.run config (polls.after (asked + 1)) t with
      | none => exact .pure _
      | some out => exact (ih _ _ out).bind (.pure _)

theorem gives_leadingHeading (t : StyledText) :
    (leadingHeading t.ranged).Gives (Passage.leadingHeading t).ranged := by
  unfold leadingHeading Passage.leadingHeading
  cases hfind : (Stage.pattern .majorSectionHeading).find? t.text with
  | none =>
    rw [StyledText.text_ranged, hfind]
    exact .pure _
  | some m =>
    have hm : m ∈ (Stage.pattern .majorSectionHeading).matches t.text :=
      List.mem_of_mem_head? hfind
    rw [StyledText.text_ranged, hfind]
    refine (RangedText.gives_placeOf hm).bind ?_
    simp only [beq_iff_eq, start_eq_zero_iff hm]
    split
    · refine (RangedText.gives_group hm 0).congr (congrArg StyledText.ranged ?_)
      rw [StyledText.eq_iff_chars, StyledText.chars_group hm]
      cases m.group? 0 with
      | none => rfl
      | some s => exact (StyledText.chars_extract t s).symm
    · exact .pure _

end Held

/-- **No cut of a render fails.** For every styled text, as it is held, every list of stages and
every schedule of polls, the render gives a report, the one of the render over styled text; and
each range that a stage cuts out of a text on the way, for a gap, a captured part, a tag that is
kept, the text around a poetic line or its indent, lies in that text and between its characters.
So does the query for the heading that opens a text. -/
theorem Held.render_fits (config : RenderConfig) (stopAfter : Option Stage) (polls : Polls)
    (asked : Nat) (stages : List Stage) (t : StyledText) :
    let rendered := Held.renderWith config stopAfter polls asked t.ranged stages
    let heading := Held.leadingHeading t.ranged
    rendered.result =
        some (Held.reportOf (Passage.renderWith config stopAfter polls asked stages t)) ∧
      (∀ c ∈ rendered.cuts, c.Fits) ∧
      heading.result = some (Passage.leadingHeading t).ranged ∧ ∀ c ∈ heading.cuts, c.Fits := by
  intro rendered heading
  have hrender := gives_renderWith config stopAfter polls asked stages t
  have hheading := gives_leadingHeading t
  exact ⟨hrender.result, hrender.fits, hheading.result, hheading.fits⟩

end Passage
