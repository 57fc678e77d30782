import Passage.Proofs.Layout.Poetry
import Passage.Proofs.Poetry.Origins

/-! Line breaks around poetic lines. Spaces aside, a line break is put in before a line where the
text before it ends in something that is no line feed, and one after a line only where the text
after it starts with something that is neither a line feed nor a block. Both rules look at the text
that the pass reads. That the breaks are apart in the text that it writes comes from the two
together: beside a line stands the text that the rule looked at, or only spaces stand between it and
the next line, and then no break is put in after a line (`breaks_not_stacked`). -/

namespace Passage.Poetry

open Laid (put copy copied)

/-- A match ends before the one after it starts. -/
theorem le_of_following {offset : Nat} {before after : List Tag.Match} {m n : Tag.Match}
    (h : Tag.Following offset (before ++ m :: n :: after)) : m.span.stop ≤ n.start := by
  induction before generalizing offset with
  | nil => exact h.2.1
  | cons k before ih => exact ih h.2

/-- A line ends before the next one starts. -/
theorem stop_le_start {text : List Char} {before after : List Tag.Match} {m n : Tag.Match}
    (h : lines text = before ++ m :: n :: after) : m.span.stop ≤ n.start := by
  have hf : Tag.Following 0 (lines text) := Tag.Pattern.poeticLine.following_matches text
  rw [h] at hf
  exact le_of_following hf

/-! ## The first and the last character beside spaces -/

/-- The first character that is no space. -/
def firstShown (cs : List Char) : Option Char :=
  cs.find? (· != ' ')

/-- The last character that is no space. -/
def lastShown (cs : List Char) : Option Char :=
  cs.reverse.find? (· != ' ')

def Spaces (cs : List Char) : Prop :=
  ∀ c ∈ cs, c = ' '

variable {x y cs : List Char} {c : Char}

theorem firstShown_append (x y : List Char) :
    firstShown (x ++ y) = (firstShown x).or (firstShown y) :=
  List.find?_append

theorem lastShown_append (x y : List Char) :
    lastShown (x ++ y) = (lastShown y).or (lastShown x) := by
  rw [lastShown, List.reverse_append]
  exact List.find?_append

theorem firstShown_eq_none_iff : firstShown cs = none ↔ Spaces cs := by
  simp [firstShown, Spaces]

theorem lastShown_eq_none_iff : lastShown cs = none ↔ Spaces cs := by
  simp [lastShown, Spaces]

theorem spaces_replicate (n : Nat) : Spaces (List.replicate n ' ') :=
  fun _ hc => List.eq_of_mem_replicate hc

theorem firstShown_cons_of_ne (hc : c ≠ ' ') (y : List Char) : firstShown (c :: y) = some c :=
  List.find?_cons_of_pos (bne_iff_ne.mpr hc)

theorem lastShown_cons_spaces (hc : c ≠ ' ') (hy : Spaces y) (x : List Char) :
    lastShown (x ++ c :: y) = some c := by
  have hcons : lastShown (c :: y) = some c := by
    have hlast : lastShown [c] = some c := firstShown_cons_of_ne hc []
    rw [← List.singleton_append, lastShown_append, lastShown_eq_none_iff.mpr hy, hlast]
    rfl
  rw [lastShown_append, hcons]
  rfl

theorem mem_of_firstShown (h : firstShown cs = some c) : c ∈ cs :=
  List.mem_of_find?_eq_some h

theorem mem_of_lastShown (h : lastShown cs = some c) : c ∈ cs :=
  List.mem_reverse.mp (List.mem_of_find?_eq_some h)

/-- The character is there and is no line feed. -/
def Open (c : Option Char) : Prop :=
  ∃ d, c = some d ∧ d ≠ '\n'

/-- Text without a line feed is open at both ends, if it is not spaces only. -/
theorem open_firstShown (hbreak : '\n' ∉ cs) (hcs : ¬ Spaces cs) : Open (firstShown cs) := by
  obtain ⟨d, hd⟩ := Option.ne_none_iff_exists'.mp (mt firstShown_eq_none_iff.mp hcs)
  refine ⟨d, hd, ?_⟩
  rintro rfl
  exact hbreak (mem_of_firstShown hd)

theorem open_lastShown (hbreak : '\n' ∉ cs) (hcs : ¬ Spaces cs) : Open (lastShown cs) := by
  obtain ⟨d, hd⟩ := Option.ne_none_iff_exists'.mp (mt lastShown_eq_none_iff.mp hcs)
  refine ⟨d, hd, ?_⟩
  rintro rfl
  exact hbreak (mem_of_lastShown hd)

theorem Open.or_left {a : Option Char} (h : Open a) (b : Option Char) : Open (a.or b) := by
  obtain ⟨d, rfl, hd⟩ := h
  exact ⟨d, rfl, hd⟩

theorem open_lastShown_append (h : Open (lastShown y)) (x : List Char) :
    Open (lastShown (x ++ y)) := by
  rw [lastShown_append]
  exact h.or_left _

theorem open_lastShown_append_spaces (h : Open (lastShown x)) (hy : Spaces y) :
    Open (lastShown (x ++ y)) := by
  rw [lastShown_append, lastShown_eq_none_iff.mpr hy, Option.none_or]
  exact h

theorem open_firstShown_append (h : Open (firstShown x)) (y : List Char) :
    Open (firstShown (x ++ y)) := by
  rw [firstShown_append]
  exact h.or_left _

theorem open_firstShown_spaces_append (hx : Spaces x) (h : Open (firstShown y)) :
    Open (firstShown (x ++ y)) := by
  rw [firstShown_append, firstShown_eq_none_iff.mpr hx, Option.none_or]
  exact h

/-- A line feed at this place stands alone: there is text before it, and another line feed is not
separated from it by spaces only. -/
structure Alone (front back : List Char) : Prop where
  not_start : front ≠ []
  before : ∀ x between, front = x ++ '\n' :: between → ∃ c ∈ between, c ≠ ' '
  after : ∀ between y, back = between ++ '\n' :: y → ∃ c ∈ between, c ≠ ' '

theorem alone_of_open {front back : List Char} (hf : Open (lastShown front))
    (hb : Open (firstShown back)) : Alone front back := by
  obtain ⟨c, hc, hcbreak⟩ := hf
  obtain ⟨d, hd, hdbreak⟩ := hb
  constructor
  · rintro rfl
    cases hc
  · intro x between hfront
    by_contra hspaces
    have hbetween : Spaces between := by simpa [Spaces] using hspaces
    rw [hfront, lastShown_cons_spaces (by decide) hbetween] at hc
    exact hcbreak (Option.some.inj hc).symm
  · intro between y hback
    by_contra hspaces
    have hbetween : Spaces between := by simpa [Spaces] using hspaces
    rw [hback, firstShown_append, firstShown_eq_none_iff.mpr hbetween, Option.none_or,
      firstShown_cons_of_ne (by decide)] at hd
    exact hdbreak (Option.some.inj hd).symm

/-! ## The rules for breaks -/

theorem needsLeadingBreak_iff : needsLeadingBreak cs = true ↔ Open (lastShown cs) := by
  have hlast : lastShown cs = (cs.reverse.dropWhile (· == ' ')).head? := by
    rw [lastShown, List.find?_eq_head?_dropWhile_not]
    simp [bne]
  rw [hlast, needsLeadingBreak]
  cases cs.reverse.dropWhile (· == ' ') with
  | nil => simp [Open]
  | cons c rest => simp [Open]

theorem dropWhile_spaces_append (hx : Spaces x) (y : List Char) :
    (x ++ y).dropWhile (· == ' ') = y.dropWhile (· == ' ') :=
  List.dropWhile_append_of_pos fun c hc => beq_iff_eq.mpr (hx c hc)

theorem needsTrailingBreak_spaces_append (hx : Spaces x) (y : List Char) :
    needsTrailingBreak (x ++ y) = needsTrailingBreak y := by
  simp only [needsTrailingBreak, dropWhile_spaces_append hx]

theorem open_of_needsTrailingBreak (h : needsTrailingBreak cs = true) : Open (firstShown cs) := by
  have hfirst : firstShown cs = (cs.dropWhile (· == ' ')).head? := by
    rw [firstShown, List.find?_eq_head?_dropWhile_not]
    simp [bne]
  simp only [needsTrailingBreak, Bool.and_eq_true, Bool.not_eq_true'] at h
  obtain ⟨⟨⟨hhead, -⟩, hcontains⟩, -⟩ := h
  rw [← hfirst] at hhead
  cases hc : firstShown cs with
  | none =>
    have hspaces := firstShown_eq_none_iff.mp hc
    rw [hfirst, List.head?_eq_none_iff] at hc
    rw [hc] at hcontains
    cases hcontains
  | some c =>
    refine ⟨c, rfl, ?_⟩
    rintro rfl
    rw [hc] at hhead
    cases hhead

/-! ## The text beside a line -/

section
variable {t : StyledText} {m n : Tag.Match} {ms before after : List Tag.Match} {start stop : Nat}

theorem laidBetween_append (t : StyledText) (start stop : Nat) (before : List Tag.Match)
    (m : Tag.Match) (after : List Tag.Match) :
    laidBetween t start stop (before ++ m :: after) =
      laidBetween t start m.start before ++ lineLaid t m ++
        laidBetween t m.span.stop stop after := by
  induction before generalizing start with
  | nil => rfl
  | cons n before ih =>
    rw [List.cons_append, laidBetween, laidBetween, ih]
    simp only [List.append_assoc]

theorem text_lineLaid (t : StyledText) (m : Tag.Match) :
    Laid.text (lineLaid t m) = leadAt t.text m ++ List.replicate (indentAt t.text m) ' ' ++
      Text.slice t.text (content m) ++ trailAt t.text m := by
  rw [lineLaid, Laid.text_append, Laid.text_append, Laid.text_append, Laid.text_put,
    Laid.text_put, Laid.text_put, Laid.text_copy]

/-- A content that is there is not spaces only: it starts after all blanks. -/
theorem not_spaces_content {text : List Char} (hm : m ∈ lines text)
    (hne : Text.slice text (content m) ≠ []) : ¬ Spaces (Text.slice text (content m)) := by
  obtain ⟨front, opening, body, rest, hline⟩ := exists_lineIn hm
  have hstops := hline.stops
  rw [hline.slice_content] at hne ⊢
  obtain ⟨c, cs, rfl⟩ := List.exists_cons_of_ne_nil hne
  intro hspaces
  have hblank := hstops c rfl
  rw [hspaces c List.mem_cons_self] at hblank
  cases hblank

/-- No break is put in after a line if only spaces stand between it and the next one. -/
theorem trailAt_of_spaces {text : List Char} (hn : n ∈ lines text) {gap : List Char}
    (hgap : Spaces gap) (hdrop : text.drop m.span.stop = gap ++ text.drop n.span.start) :
    needsTrailingBreak (text.drop m.span.stop) = false := by
  obtain ⟨front, opening, body, rest, hline⟩ := exists_lineIn hn
  obtain ⟨more, hopens⟩ := hline.opens
  have hblock : Text.startsWith "<para".toList (text.drop n.span.start) = true := by
    rw [hline.drop_start, ← hopens, List.append_assoc, Text.startsWith,
      Text.dropLiteral?_eq_some_iff.mpr rfl]
    rfl
  rw [hdrop, needsTrailingBreak_spaces_append hgap, needsTrailingBreak_of_startsWith hblock]

/-- The text up to a line, cut at the end of an earlier line. -/
theorem take_eq_append (text : List Char) {a b : Nat} (hab : a ≤ b) :
    text.take b = text.take a ++ Text.slice text ⟨a, b⟩ := by
  conv_lhs => rw [show b = a + (b - a) by omega, List.take_add]
  rfl

theorem drop_eq_append (text : List Char) {a b : Nat} (hab : a ≤ b) :
    text.drop a = Text.slice text ⟨a, b⟩ ++ text.drop b := by
  conv_lhs => rw [← List.take_append_drop (b - a) (text.drop a), List.drop_drop,
    Nat.add_sub_of_le hab]
  rfl

/-- The contents of the lines are there and hold no line feed. -/
def Solid (text : List Char) : Prop :=
  ∀ m ∈ lines text, Text.slice text (content m) ≠ [] ∧ '\n' ∉ Text.slice text (content m)

instance (text : List Char) : Decidable (Solid text) :=
  inferInstanceAs (Decidable (∀ m ∈ lines text, _))

/-- Where the text before a line is open at its end, so is what is written before the line. -/
theorem open_before (hsolid : Solid t.text) (hms : lines t.text = before ++ m :: after)
    (h : Open (lastShown (t.text.take m.span.start))) :
    Open (lastShown (Laid.text (laidBetween t 0 m.start before))) := by
  rcases before.eq_nil_or_concat' with rfl | ⟨earlier, n, rfl⟩
  · rw [laidBetween, Laid.text_copy]
    exact h
  · have hn : n ∈ lines t.text := by simp [hms]
    have hm : m ∈ lines t.text := by simp [hms]
    have hle : n.span.stop ≤ m.start := by
      rw [List.append_assoc] at hms
      exact stop_le_start hms
    rw [laidBetween_append, laidBetween, Laid.text_append, Laid.text_append, Laid.text_copy]
    have hcut := take_eq_append t.text hle
    change Open (lastShown (t.text.take m.start)) at h
    rw [hcut, lastShown_append] at h
    by_cases hgap : Spaces (Text.slice t.text ⟨n.span.stop, m.start⟩)
    · -- nothing was put in after the line before, so its content is what comes last
      have htrail : trailAt t.text n = [] := by
        rw [trailAt, trailAt_of_spaces hm hgap (drop_eq_append t.text hle)]
        rfl
      obtain ⟨hne, hbreak⟩ := hsolid n hn
      have hcontent := open_lastShown hbreak (not_spaces_content hn hne)
      refine open_lastShown_append_spaces (open_lastShown_append ?_ _) hgap
      rw [text_lineLaid, htrail, List.append_nil]
      exact open_lastShown_append hcontent _
    · obtain ⟨c, hc⟩ := Option.ne_none_iff_exists'.mp (mt lastShown_eq_none_iff.mp hgap)
      refine open_lastShown_append ?_ _
      rw [hc] at h ⊢
      exact h

/-- Where a break is put in after a line, what is written after the line is open at its start. -/
theorem open_after (hms : lines t.text = before ++ m :: after)
    (h : needsTrailingBreak (t.text.drop m.span.stop) = true) :
    Open (firstShown (Laid.text (laidBetween t m.span.stop t.text.length after))) := by
  have hopen := open_of_needsTrailingBreak h
  cases after with
  | nil =>
    have hslice : Text.slice t.text ⟨m.span.stop, t.text.length⟩ = t.text.drop m.span.stop := by
      rw [Text.slice, ← List.length_drop, List.take_length]
    rw [laidBetween, Laid.text_copy, hslice]
    exact hopen
  | cons n later =>
    have hn : n ∈ lines t.text := by simp [hms]
    have hle := stop_le_start hms
    rw [laidBetween, Laid.text_append, Laid.text_append, Laid.text_copy, List.append_assoc]
    have hcut := drop_eq_append t.text hle
    by_cases hgap : Spaces (Text.slice t.text ⟨m.span.stop, n.start⟩)
    · rw [trailAt_of_spaces hn hgap hcut] at h
      cases h
    · obtain ⟨c, hc⟩ := Option.ne_none_iff_exists'.mp (mt firstShown_eq_none_iff.mp hgap)
      refine open_firstShown_append ?_ _
      rw [hcut, firstShown_append, hc] at hopen
      rw [hc]
      exact hopen

/-! ## What is put in, place by place -/

/-- An element of two lists, one after the other, is in the one or in the other. -/
theorem append_eq_append_cons {α : Type} {xs ys front back : List α} {a : α}
    (h : xs ++ ys = front ++ a :: back) :
    (∃ v, xs = front ++ a :: v ∧ back = v ++ ys) ∨ ∃ u, ys = u ++ a :: back ∧ front = xs ++ u := by
  rcases List.append_eq_append_iff.mp h with ⟨u, hfront, hys⟩ | ⟨v, hxs, hback⟩
  · exact .inr ⟨u, hys, hfront⟩
  · cases v with
    | nil =>
      rw [List.nil_append] at hback
      exact .inr ⟨[], hback.symm, by simpa using hxs.symm⟩
    | cons b v =>
      obtain ⟨rfl, rfl⟩ := List.cons.inj hback
      exact .inl ⟨v, hxs, rfl⟩

variable {front back u v : List Laid} {x : Laid}

theorem place?_ne_none_of_copy {attributes : List Attribute} {s : Span}
    (h : copy t attributes s = u ++ x :: v) : x.place? ≠ none := by
  have hx : x ∈ copy t attributes s := by simp [h]
  obtain ⟨i, hi, -⟩ := Laid.place?_of_mem_copy t attributes s hx
  rw [hi]
  exact Option.some_ne_none i

/-- What is put in belongs to a line. -/
theorem exists_line_of_put {ms : List Tag.Match}
    (h : laidBetween t start stop ms = front ++ x :: back) (hx : x.place? = none) :
    ∃ before m after u v, ms = before ++ m :: after ∧ lineLaid t m = u ++ x :: v ∧
      front = laidBetween t start m.start before ++ u ∧
      back = v ++ laidBetween t m.span.stop stop after := by
  induction ms generalizing start front with
  | nil => exact absurd hx (place?_ne_none_of_copy h)
  | cons m ms ih =>
    rw [laidBetween] at h
    rcases append_eq_append_cons h with ⟨v, hleft, rfl⟩ | ⟨u, hright, rfl⟩
    · rcases append_eq_append_cons hleft with ⟨w, hgap, -⟩ | ⟨u, hline, rfl⟩
      · exact absurd hx (place?_ne_none_of_copy hgap)
      · exact ⟨[], m, ms, u, v, rfl, hline, rfl, rfl⟩
    · obtain ⟨before, n, after, w, v, rfl, hline, rfl, rfl⟩ := ih hright
      refine ⟨m :: before, n, after, w, v, rfl, hline, ?_, rfl⟩
      rw [laidBetween]
      simp only [List.append_assoc]

/-- A line feed that is put in for a line is the break before its indent or the one after its
content. -/
theorem lineLaid_split (h : lineLaid t m = u ++ x :: v) (hx : x.place? = none)
    (hbreak : x.char.1 = '\n') :
    (needsLeadingBreak (t.text.take m.span.start) = true ∧ u = [] ∧
      v = put (List.replicate (indentAt t.text m) ' ') ++ copy t [.normal] (content m) ++
        put (trailAt t.text m)) ∨
    (needsTrailingBreak (t.text.drop m.span.stop) = true ∧ v = [] ∧
      u = put (leadAt t.text m) ++ put (List.replicate (indentAt t.text m) ' ') ++
        copy t [.normal] (content m)) := by
  have hone {b : Bool} {u v : List Laid}
      (h : put (if b = true then ['\n'] else []) = u ++ x :: v) : b = true ∧ u = [] ∧ v = [] := by
    cases b with
    | false => simp [put] at h
    | true => cases u <;> simp_all [put]
  rw [lineLaid] at h
  rcases append_eq_append_cons h with ⟨w, hleft, rfl⟩ | ⟨w, htrail, rfl⟩
  · rcases append_eq_append_cons hleft with ⟨w', hfirst, rfl⟩ | ⟨w', hcopy, -⟩
    · rcases append_eq_append_cons hfirst with ⟨w'', hlead, rfl⟩ | ⟨w'', hspaces, -⟩
      · obtain ⟨hneeds, rfl, rfl⟩ := hone hlead
        exact .inl ⟨hneeds, rfl, rfl⟩
      · have hmem : x ∈ put (List.replicate (indentAt t.text m) ' ') := by simp [hspaces]
        obtain ⟨c, hc, rfl⟩ := List.mem_map.mp hmem
        rw [List.eq_of_mem_replicate hc] at hbreak
        cases hbreak
    · exact absurd hx (place?_ne_none_of_copy hcopy)
  · obtain ⟨hneeds, rfl, rfl⟩ := hone htrail
    exact .inr ⟨hneeds, rfl, by rw [List.append_nil]⟩

/-- A line feed that is put in stands alone. -/
theorem alone_of_put (hsolid : Solid t.text) (h : laid t = front ++ x :: back)
    (hx : x.place? = none) (hbreak : x.char.1 = '\n') :
    Alone (Laid.text front) (Laid.text back) := by
  obtain ⟨before, m, after, u, v, hms, hline, rfl, rfl⟩ := exists_line_of_put h hx
  have hm : m ∈ lines t.text := by simp [hms]
  obtain ⟨hne, hfeed⟩ := hsolid m hm
  have hspaces := not_spaces_content hm hne
  have hindent := spaces_replicate (indentAt t.text m)
  rcases lineLaid_split hline hx hbreak with ⟨hneeds, rfl, rfl⟩ | ⟨hneeds, rfl, rfl⟩
  · rw [List.append_nil]
    refine alone_of_open (open_before hsolid hms (needsLeadingBreak_iff.mp hneeds)) ?_
    rw [Laid.text_append, Laid.text_append, Laid.text_append, Laid.text_put, Laid.text_copy,
      List.append_assoc, List.append_assoc]
    refine open_firstShown_spaces_append hindent (open_firstShown_append ?_ _)
    exact open_firstShown hfeed hspaces
  · rw [List.nil_append]
    refine alone_of_open ?_ (open_after hms hneeds)
    rw [Laid.text_append, Laid.text_append, Laid.text_copy]
    refine open_lastShown_append (open_lastShown_append ?_ _) _
    exact open_lastShown hfeed hspaces

/-- Between two lines there is a line feed in what is written: in the text between them, or put in
before the second. -/
theorem exists_break_between (hms : lines t.text = before ++ m :: n :: after) :
    ∃ front between back,
      laid t = front ++ copy t [.normal] (content m) ++ between ++
        copy t [.normal] (content n) ++ back ∧
      '\n' ∈ Laid.text between := by
  have hm : m ∈ lines t.text := by simp [hms]
  have hle := stop_le_start hms
  have hbreak : '\n' ∈ Text.slice t.text ⟨m.span.stop, n.start⟩ ++ leadAt t.text n := by
    rw [leadAt]
    split
    · exact List.mem_append_right _ List.mem_cons_self
    · next hneeds =>
      -- what comes last before the second line is no `>`, so it is in the text between the two
      have hopen := mt needsLeadingBreak_iff.mpr hneeds
      obtain ⟨opening, tag, body, rest, hline⟩ := exists_lineIn hm
      have hend : lastShown (t.text.take m.span.stop) = some '>' := by
        rw [hline.take_stop, ← List.append_assoc, ← List.append_assoc, lastShown_append]
        rfl
      change ¬ Open (lastShown (t.text.take n.start)) at hopen
      rw [take_eq_append t.text hle, lastShown_append, hend] at hopen
      cases hgap : lastShown (Text.slice t.text ⟨m.span.stop, n.start⟩) with
      | none => exact absurd ⟨'>', by rw [hgap]; rfl, by decide⟩ hopen
      | some c =>
        by_cases hc : c = '\n'
        · exact List.mem_append_left _ (mem_of_lastShown (hc ▸ hgap))
        · exact absurd ⟨c, by rw [hgap]; rfl, hc⟩ hopen
  refine ⟨laidBetween t 0 m.start before ++ put (leadAt t.text m) ++
      put (List.replicate (indentAt t.text m) ' '),
    put (trailAt t.text m) ++ copy t [] ⟨m.span.stop, n.start⟩ ++ put (leadAt t.text n) ++
      put (List.replicate (indentAt t.text n) ' '),
    put (trailAt t.text n) ++ laidBetween t n.span.stop t.text.length after, ?_, ?_⟩
  · rw [laid, hms, laidBetween_append, laidBetween, lineLaid, lineLaid]
    simp only [List.append_assoc]
  · simp only [Laid.text_append, Laid.text_put, Laid.text_copy, List.append_assoc]
    refine List.mem_append_right _ ?_
    rw [← List.append_assoc]
    exact List.mem_append_left _ hbreak

end

/-- **The line breaks that the pass puts in are never stacked**, in a text whose lines have contents
that are there and hold no line feed. Such a break is not at the start of what is written, and no
line feed on either side of it, put in or copied, is separated from it by spaces only. And the
contents of two lines that follow each other have a line feed between them. -/
theorem breaks_not_stacked (config : RenderConfig) (t : StyledText) (h : Solid t.text) :
    (Stage.poeticLine.run config (.always false) t).isSome ∧
    ∀ polls out, Stage.poeticLine.run config polls t = some out →
      (laid t).map Laid.char = out.chars ∧
      copied (laid t) = (t.text.zipIdx.filter fun p => Stays (lines t.text) p.2) ∧
      (∀ front x back, laid t = front ++ x :: back → x.place? = none → x.char.1 = '\n' →
        Alone (Laid.text front) (Laid.text back)) ∧
      ∀ before m n after, lines t.text = before ++ m :: n :: after →
        ∃ front between back,
          laid t = front ++ copy t [.normal] (content m) ++ between ++
            copy t [.normal] (content n) ++ back ∧
          '\n' ∈ Laid.text between := by
  constructor
  · rw [Stage.run_always]
    rfl
  · intro polls out hout
    rw [Stage.eq_apply_of_run hout]
    refine ⟨char_laid config t, copied_laid t, ?_, ?_⟩
    · intro front x back hlaid hx hbreak
      exact alone_of_put h hlaid hx hbreak
    · intro before m n after hms
      exact exists_break_between hms

theorem breaks_not_stacked_two_lines :
    (Stage.poeticLine.run {} (.always false) (.plain
      "a <para style=\"q1\">one</para> <para style=\"q2\">two</para> b\n<para>c</para>".toList)).map
        StyledText.text = some "a \n    one \n        two\n b\n<para>c</para>".toList := by
  have h := breaks_not_stacked {} (.plain
    "a <para style=\"q1\">one</para> <para style=\"q2\">two</para> b\n<para>c</para>".toList)
    (by decide +kernel)
  have hlaid := (h.2 _ _ (Stage.run_always ..)).1
  rw [Stage.run_always, Option.map_some, StyledText.text_eq_map_chars, ← hlaid]
  decide +kernel

end Passage.Poetry
