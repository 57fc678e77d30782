import Passage.Proofs.Render.Pins
import Passage.Proofs.Render.Splice
import Passage.Proofs.Tag.Grammar

/-! What the pass over poetic lines writes, with where it comes from. The pass copies the text
between the lines and the content of each line, and around a content it puts in an indent and line
breaks. `laid` keeps with each copied character the place that it is copied from. Without the places
it is the output of the pass (`char_laid`); and the places are those outside the lines and those of
the contents, each once and in order (`copied_laid`), so all else that is written is put in. -/

namespace Passage

/-- A written character, with the place that it is copied from; without one it is put in. -/
structure Laid where
  char : StyledChar
  place? : Option Nat
deriving DecidableEq

namespace Laid

/-- Characters that are put in. -/
def put (cs : List Char) : List Laid :=
  cs.map fun c => ⟨(c, ∅), none⟩

/-- The characters of a span, copied with attributes added. -/
def copy (t : StyledText) (attributes : List Attribute) (s : Span) : List Laid :=
  (((t.chars.drop s.start).take (s.stop - s.start)).zipIdx s.start).map fun p =>
    ⟨(p.1.1, p.1.2.insertAll attributes), some p.2⟩

def text (l : List Laid) : List Char :=
  l.map fun x => x.char.1

def copied (l : List Laid) : List (Char × Nat) :=
  l.filterMap fun x => x.place?.map fun i => (x.char.1, i)

theorem text_append (l l' : List Laid) : text (l ++ l') = text l ++ text l' :=
  List.map_append

theorem copied_append (l l' : List Laid) : copied (l ++ l') = copied l ++ copied l' :=
  List.filterMap_append

theorem char_put (cs : List Char) : (put cs).map char = (StyledText.plain cs).chars := by
  rw [StyledText.chars_plain, put, List.map_map]
  rfl

theorem text_put (cs : List Char) : text (put cs) = cs := by
  rw [text, put, List.map_map]
  exact List.map_id cs

theorem copied_put (cs : List Char) : copied (put cs) = [] := by
  rw [copied, put, List.filterMap_map]
  exact List.filterMap_eq_nil_iff.mpr fun _ _ => rfl

variable (t : StyledText) (attributes : List Attribute) (s : Span)

theorem char_copy : (copy t attributes s).map char =
    ((t.chars.drop s.start).take (s.stop - s.start)).map fun c =>
      (c.1, c.2.insertAll attributes) := by
  rw [copy, List.map_map]
  conv_rhs => rw [← List.zipIdx_map_fst s.start ((t.chars.drop s.start).take _), List.map_map]
  rfl

theorem text_copy : text (copy t attributes s) = Text.slice t.text s := by
  have hchar := congrArg (List.map Prod.fst) (char_copy t attributes s)
  rw [List.map_map, List.map_map] at hchar
  rw [Text.slice, StyledText.text_eq_map_chars, ← List.map_drop, ← List.map_take]
  exact hchar

theorem copied_copy :
    copied (copy t attributes s) = (Text.slice t.text s).zipIdx s.start := by
  rw [copied, copy, List.filterMap_map, Text.slice, StyledText.text_eq_map_chars, ← List.map_drop,
    ← List.map_take, List.zipIdx_map]
  exact congrFun List.filterMap_eq_map _

/-- What is copied has its place in the span. -/
theorem place?_of_mem_copy {x : Laid} (h : x ∈ copy t attributes s) :
    ∃ i, x.place? = some i ∧ s.start ≤ i ∧ i < s.stop := by
  obtain ⟨p, hp, rfl⟩ := List.mem_map.mp h
  have hlo := List.le_snd_of_mem_zipIdx hp
  have hhi := List.snd_lt_add_of_mem_zipIdx hp
  have hlen := List.length_take_le (s.stop - s.start) (t.chars.drop s.start)
  exact ⟨p.2, rfl, hlo, by omega⟩

end Laid

namespace Poetry

open Laid (put copy copied)

def levelText (text : List Char) (m : Tag.Match) : List Char :=
  ((m.group? 0).map (Text.slice text)).getD []

def content (m : Tag.Match) : Span :=
  (m.group? 1).getD m.span

def indentAt (text : List Char) (m : Tag.Match) : Nat :=
  indentWidth (level (levelText text m)) (Text.slice text (content m))

def leadAt (text : List Char) (m : Tag.Match) : List Char :=
  if needsLeadingBreak (text.take m.span.start) then ['\n'] else []

def trailAt (text : List Char) (m : Tag.Match) : List Char :=
  if needsTrailingBreak (text.drop m.span.stop) then ['\n'] else []

def lineLaid (t : StyledText) (m : Tag.Match) : List Laid :=
  put (leadAt t.text m) ++ put (List.replicate (indentAt t.text m) ' ') ++
    copy t [.normal] (content m) ++ put (trailAt t.text m)

/-- What is written for the text between two places, in which these lines lie. -/
def laidBetween (t : StyledText) (start stop : Nat) : List Tag.Match → List Laid
  | [] => copy t [] ⟨start, stop⟩
  | m :: ms => copy t [] ⟨start, m.start⟩ ++ lineLaid t m ++ laidBetween t m.span.stop stop ms

def lines (text : List Char) : List Tag.Match :=
  Tag.Pattern.poeticLine.matches text

def laid (t : StyledText) : List Laid :=
  laidBetween t 0 t.text.length (lines t.text)

/-- The place is outside the lines, or in the content of one. -/
def Stays (ms : List Tag.Match) (i : Nat) : Prop :=
  ∀ m ∈ ms, m.Covers i → (content m).start ≤ i ∧ i < (content m).stop

instance (ms : List Tag.Match) (i : Nat) : Decidable (Stays ms i) :=
  inferInstanceAs (Decidable (∀ m ∈ ms, _))

/-- A line in a text: what comes before it, its opening tag with the blanks after that, its content
and what follows its closing tag. -/
structure LineIn (text : List Char) (m : Tag.Match) (front opening body after : List Char) :
    Prop where
  text_eq : text = front ++ (opening ++ (body ++ ("</para>".toList ++ after)))
  opens : "<para".toList <+: opening
  stops : Tag.Stops Text.isBlank body
  start_eq : m.start = front.length
  content_eq : m.group? 1 =
    some ⟨front.length + opening.length, front.length + (opening.length + body.length)⟩
  stop_eq : m.span.stop = front.length + (opening.length + (body.length + 7))

/-- Each match is a line. -/
theorem exists_lineIn {text : List Char} {m : Tag.Match} (h : m ∈ lines text) :
    ∃ front opening body after, LineIn text m front opening body after := by
  obtain ⟨hlt, hmatch⟩ := Tag.Pattern.match?_of_mem_matches h
  obtain ⟨parts, after, hspells, htext, he⟩ := Tag.Family.poeticLine.match?_eq_some_iff.mp hmatch
  have hfront : (text.take m.start).length = m.start :=
    List.length_take_of_le (Nat.le_of_lt hlt)
  have hsplit := List.take_append_drop m.start text
  generalize text.take m.start = front at hfront hsplit
  cases hspells with
  | @poeticLine _ a level b gap body _ ha hlevel hb hcontent =>
    refine ⟨front, "<para".toList ++ (a ++ ("style=\"q".toList ++ (level ++ (['"'] ++ (b ++
      (['>'] ++ gap)))))), body, after, ?_, ⟨_, rfl⟩, hcontent.stops, hfront.symm, ?_, ?_⟩
    · rw [← hsplit, htext]
      simp
    · rw [Tag.Match.group?, he]
      simp [Tag.extentFrom, Tag.capturesFrom, Tag.shift]
      omega
    · rw [Tag.Match.span, he]
      simp [Tag.extentFrom]
      omega

namespace LineIn

variable {text front opening body after : List Char} {m : Tag.Match}

section
variable (h : LineIn text m front opening body after)
include h

theorem drop_start :
    text.drop m.span.start = opening ++ (body ++ ("</para>".toList ++ after)) := by
  change text.drop m.start = _
  rw [h.text_eq, h.start_eq, List.drop_left]

theorem take_stop : text.take m.span.stop = front ++ (opening ++ (body ++ "</para>".toList)) := by
  have hsplit : text = front ++ (opening ++ (body ++ "</para>".toList)) ++ after := by
    rw [h.text_eq]
    simp
  rw [hsplit]
  refine List.take_left' ?_
  rw [h.stop_eq]
  simp

theorem content_def : content m =
    ⟨front.length + opening.length, front.length + (opening.length + body.length)⟩ := by
  rw [content, h.content_eq, Option.getD_some]

theorem slice_content : Text.slice text (content m) = body := by
  have hsplit : text = (front ++ opening) ++ (body ++ ("</para>".toList ++ after)) := by
    rw [h.text_eq]
    simp
  rw [h.content_def, Text.slice, hsplit, List.drop_left' (by simp)]
  refine List.take_left' ?_
  simp only
  omega

/-- The content lies in the line, and the line in the text. -/
theorem bounds : m.start ≤ (content m).start ∧ (content m).start ≤ (content m).stop ∧
    (content m).stop ≤ m.span.stop ∧ m.span.stop ≤ text.length := by
  have hlen := congrArg List.length h.text_eq
  rw [h.content_def, h.stop_eq, h.start_eq]
  simp only [List.length_append, String.length_toList] at hlen ⊢
  have hclosing : "</para>".length = 7 := rfl
  omega

end

end LineIn

/-- What is written for a line is the answer of the pass to it. -/
theorem char_lineLaid {t : StyledText} {m : Tag.Match} (h : m ∈ lines t.text) :
    (lineLaid t m).map Laid.char = (lineAt t.text (t.occurrence m)).chars := by
  obtain ⟨front, opening, body, after, hline⟩ := exists_lineIn h
  have hlevel : ((t.occurrence m).group 0).text = levelText t.text m := StyledText.text_group h 0
  have hgroup : (((t.occurrence m).group 1).addStyles [.normal]).chars =
      (copy t [.normal] (content m)).map Laid.char := by
    rw [StyledText.chars_addStyles, StyledText.chars_group h, Laid.char_copy, content,
      hline.content_eq]
    rfl
  have hcontent : (((t.occurrence m).group 1).addStyles [.normal]).text =
      Text.slice t.text (content m) := by
    rw [StyledText.text_eq_map_chars, hgroup, List.map_map, ← Laid.text_copy t [.normal]]
    rfl
  simp only [lineAt, StyledText.chars_append, hcontent, hgroup, hlevel]
  rw [lineLaid, List.map_append, List.map_append, List.map_append, Laid.char_put, Laid.char_put,
    Laid.char_put, ← StyledText.chars_append]
  simp only [StyledText.chars_plain, StyledText.chars_append, List.map_append]
  rfl

/-- What is written between two places is the text between them with the answers in the places of
the lines. -/
theorem char_laidBetween (t : StyledText) {ms : List Tag.Match} (h : ∀ m ∈ ms, m ∈ lines t.text)
    (start : Nat) :
    (laidBetween t start t.text.length ms).map Laid.char =
      weave t.chars start (ms.map fun m => (m, lineAt t.text (t.occurrence m))) := by
  have hcopy (s : Span) : (copy t [] s).map Laid.char =
      (t.chars.drop s.start).take (s.stop - s.start) := by
    rw [Laid.char_copy]
    exact List.map_id _
  induction ms generalizing start with
  | nil =>
    rw [laidBetween, hcopy, List.map_nil, weave, t.length_text, ← List.length_drop,
      List.take_length]
  | cons m ms ih =>
    obtain ⟨hm, hms⟩ := List.forall_mem_cons.mp h
    rw [laidBetween, List.map_append, List.map_append, hcopy, char_lineLaid hm, ih hms,
      List.map_cons, weave]

/-- **What is written is the output of the pass.** -/
theorem char_laid (config : RenderConfig) (t : StyledText) :
    (laid t).map Laid.char = (Stage.poeticLine.apply config t).chars := by
  rw [laid, char_laidBetween t (fun _ hm => hm), Stage.chars_apply (by decide)]
  rfl

/-! ## The places that are copied -/

def placesOf (text : List Char) (s : Span) : List (Char × Nat) :=
  (Text.slice text s).zipIdx s.start

theorem placesOf_append (text : List Char) {a b c : Nat} (hab : a ≤ b) (hbc : b ≤ c)
    (hb : b ≤ text.length) :
    placesOf text ⟨a, c⟩ = placesOf text ⟨a, b⟩ ++ placesOf text ⟨b, c⟩ := by
  have hlen : (Text.slice text ⟨a, b⟩).length = b - a := by
    rw [Text.slice, List.length_take, List.length_drop]
    simp only
    omega
  have hslice : Text.slice text ⟨a, c⟩ = Text.slice text ⟨a, b⟩ ++ Text.slice text ⟨b, c⟩ := by
    simp only [Text.slice]
    rw [show c - a = b - a + (c - b) by omega, List.take_add, List.drop_drop,
      Nat.add_sub_of_le hab]
  rw [placesOf, hslice, List.zipIdx_append, hlen]
  simp only
  rw [Nat.add_sub_of_le hab]
  rfl

theorem bounds_of_mem_placesOf {text : List Char} {s : Span} {p : Char × Nat}
    (h : p ∈ placesOf text s) : s.start ≤ p.2 ∧ p.2 < s.stop := by
  have hlo := List.le_snd_of_mem_zipIdx h
  have hhi := List.snd_lt_add_of_mem_zipIdx h
  have hlen := List.length_take_le (s.stop - s.start) (text.drop s.start)
  rw [Text.slice] at hhi
  omega

variable {m : Tag.Match} {ms : List Tag.Match} {i : Nat}

theorem stays_of_lt (h : ∀ m ∈ ms, i < m.start) : Stays ms i :=
  fun m hm hc => absurd hc (Tag.Match.not_covers_of_lt (h m hm))

theorem stays_cons_of_le (h : m.span.stop ≤ i) : Stays (m :: ms) i ↔ Stays ms i := by
  constructor
  · intro hs n hn
    exact hs n (List.mem_cons_of_mem m hn)
  · intro hs
    exact List.forall_mem_cons.mpr ⟨fun hc => absurd hc (Tag.Match.not_covers_of_le h), hs⟩

theorem stays_cons_of_covers (hc : m.Covers i) (h : ∀ n ∈ ms, m.span.stop ≤ n.start) :
    Stays (m :: ms) i ↔ (content m).start ≤ i ∧ i < (content m).stop := by
  constructor
  · intro hs
    exact hs m List.mem_cons_self hc
  · intro hi
    refine List.forall_mem_cons.mpr ⟨fun _ => hi, ?_⟩
    exact stays_of_lt fun n hn => Nat.lt_of_lt_of_le hc.2 (h n hn)

theorem filter_stays_eq_nil {text : List Char} {s : Span}
    (h : ∀ i, s.start ≤ i → i < s.stop → ¬ Stays ms i) :
    (placesOf text s).filter (fun p => Stays ms p.2) = [] := by
  refine List.filter_eq_nil_iff.mpr fun p hp => ?_
  obtain ⟨hlo, hhi⟩ := bounds_of_mem_placesOf hp
  rw [decide_eq_true_eq]
  exact h p.2 hlo hhi

theorem filter_stays_eq_self {text : List Char} {s : Span}
    (h : ∀ i, s.start ≤ i → i < s.stop → Stays ms i) :
    (placesOf text s).filter (fun p => Stays ms p.2) = placesOf text s := by
  refine List.filter_eq_self.mpr fun p hp => ?_
  obtain ⟨hlo, hhi⟩ := bounds_of_mem_placesOf hp
  exact decide_eq_true (h p.2 hlo hhi)

/-- The places that stay in what a line covers are those of its content. -/
theorem filter_stays_line {text : List Char} (hm : m ∈ lines text)
    (h : ∀ n ∈ ms, m.span.stop ≤ n.start) :
    (placesOf text m.span).filter (fun p => Stays (m :: ms) p.2) = placesOf text (content m) := by
  obtain ⟨front, opening, body, after, hline⟩ := exists_lineIn hm
  obtain ⟨hstart, hle, hstop, hend⟩ := hline.bounds
  have hspan : placesOf text m.span = placesOf text ⟨m.start, (content m).start⟩ ++
      (placesOf text (content m) ++ placesOf text ⟨(content m).stop, m.span.stop⟩) := by
    have hback := placesOf_append text hle hstop (Nat.le_trans hstop hend)
    exact (placesOf_append text hstart (Nat.le_trans hle hstop) (by omega)).trans
      (congrArg _ hback)
  have hstays {i : Nat} (hlo : m.start ≤ i) (hhi : i < m.span.stop) :
      Stays (m :: ms) i ↔ (content m).start ≤ i ∧ i < (content m).stop :=
    stays_cons_of_covers ⟨hlo, hhi⟩ h
  rw [hspan, List.filter_append, List.filter_append]
  have hfront : (placesOf text ⟨m.start, (content m).start⟩).filter
      (fun p => Stays (m :: ms) p.2) = [] := by
    refine filter_stays_eq_nil fun i hlo hhi => ?_
    simp only at hlo hhi
    rw [hstays hlo (by omega)]
    omega
  have hback : (placesOf text ⟨(content m).stop, m.span.stop⟩).filter
      (fun p => Stays (m :: ms) p.2) = [] := by
    refine filter_stays_eq_nil fun i hlo hhi => ?_
    simp only at hlo hhi
    rw [hstays (by omega) hhi]
    omega
  have hbody : (placesOf text (content m)).filter (fun p => Stays (m :: ms) p.2) =
      placesOf text (content m) := by
    refine filter_stays_eq_self fun i hlo hhi => ?_
    rw [hstays (by omega) (by omega)]
    exact ⟨hlo, hhi⟩
  rw [hfront, hback, hbody, List.nil_append, List.append_nil]

theorem copied_lineLaid (t : StyledText) (m : Tag.Match) :
    copied (lineLaid t m) = placesOf t.text (content m) := by
  rw [lineLaid, Laid.copied_append, Laid.copied_append, Laid.copied_append, Laid.copied_put,
    Laid.copied_put, Laid.copied_put, Laid.copied_copy]
  exact List.append_nil _

theorem copied_laidBetween {t : StyledText} {start : Nat} (hf : Tag.Following start ms)
    (h : ∀ m ∈ ms, m ∈ lines t.text) (hstart : start ≤ t.text.length) :
    copied (laidBetween t start t.text.length ms) =
      (placesOf t.text ⟨start, t.text.length⟩).filter fun p => Stays ms p.2 := by
  induction ms generalizing start with
  | nil =>
    rw [laidBetween, Laid.copied_copy, filter_stays_eq_self]
    · rfl
    · intro i _ _ m hm
      exact absurd hm List.not_mem_nil
  | cons m ms ih =>
    obtain ⟨hm, hms⟩ := List.forall_mem_cons.mp h
    obtain ⟨hle, hf⟩ := hf
    have hlater := hf.le_start
    obtain ⟨front, opening, body, after, hline⟩ := exists_lineIn hm
    obtain ⟨-, -, -, hend⟩ := hline.bounds
    have hspan : m.start ≤ m.span.stop := Nat.le_add_right _ _
    have hsplit : placesOf t.text ⟨start, t.text.length⟩ = placesOf t.text ⟨start, m.start⟩ ++
        (placesOf t.text m.span ++ placesOf t.text ⟨m.span.stop, t.text.length⟩) := by
      have hback := placesOf_append t.text hspan hend hend
      exact (placesOf_append t.text hle (Nat.le_trans hspan hend)
        (Nat.le_trans hspan hend)).trans (congrArg _ hback)
    have hgap : (placesOf t.text ⟨start, m.start⟩).filter (fun p => Stays (m :: ms) p.2) =
        placesOf t.text ⟨start, m.start⟩ := by
      refine filter_stays_eq_self fun i _ hhi => stays_of_lt ?_
      simp only at hhi
      refine List.forall_mem_cons.mpr ⟨hhi, fun n hn => ?_⟩
      have := hlater n hn
      omega
    have hrest : (placesOf t.text ⟨m.span.stop, t.text.length⟩).filter
        (fun p => Stays (m :: ms) p.2) =
        (placesOf t.text ⟨m.span.stop, t.text.length⟩).filter fun p => Stays ms p.2 := by
      refine List.filter_congr fun p hp => ?_
      obtain ⟨hlo, -⟩ := bounds_of_mem_placesOf hp
      exact decide_eq_decide.mpr (stays_cons_of_le hlo)
    rw [laidBetween, Laid.copied_append, Laid.copied_append, Laid.copied_copy, copied_lineLaid,
      ih hf hms hend, hsplit, List.filter_append, List.filter_append, hgap,
      filter_stays_line hm hlater, hrest, List.append_assoc]
    rfl

/-- **What is copied are the characters outside the lines and in their contents.** -/
theorem copied_laid (t : StyledText) :
    copied (laid t) = t.text.zipIdx.filter fun p => Stays (lines t.text) p.2 := by
  have hf : Tag.Following 0 (lines t.text) := Tag.Pattern.poeticLine.following_matches t.text
  rw [laid, copied_laidBetween hf (fun _ hm => hm) (Nat.zero_le _), placesOf, Text.slice]
  simp only [List.drop_zero, Nat.sub_zero, List.take_length]

end Poetry

end Passage
