import Passage.Text.Blank

/-! Byte offsets. A position in a text is reported as the number of bytes before it
in UTF-8; this file measures, cuts at byte offsets (refusing an offset inside a
character), and reads bytes back into characters. -/

namespace Passage

/-- A half-open stretch of positions. -/
structure Span where
  start : Nat
  stop : Nat
deriving DecidableEq, Repr

namespace Text

def byteLength (cs : List Char) : Nat :=
  cs.foldr (fun c n => c.utf8Size + n) 0

/-- The text after its first `n` bytes; refused where these end inside a character
or past the end. -/
def dropBytes? (n : Nat) : List Char → Option (List Char)
  | [] => if n = 0 then some [] else none
  | c :: cs =>
    if n = 0 then some (c :: cs)
    else if c.utf8Size ≤ n then dropBytes? (n - c.utf8Size) cs
    else none

/-- The first `n` bytes of a text; refused where these end inside a character or past
the end. -/
def takeBytes? (n : Nat) : List Char → Option (List Char)
  | [] => if n = 0 then some [] else none
  | c :: cs =>
    if n = 0 then some []
    else if c.utf8Size ≤ n then (takeBytes? (n - c.utf8Size) cs).map (c :: ·)
    else none

def byteSpan (cs : List Char) (s : Span) : Span :=
  let start := byteLength (cs.take s.start)
  ⟨start, start + byteLength ((cs.drop s.start).take (s.stop - s.start))⟩

def slice (cs : List Char) (s : Span) : List Char :=
  (cs.drop s.start).take (s.stop - s.start)

theorem byteLength_cons (c : Char) (cs : List Char) :
    byteLength (c :: cs) = c.utf8Size + byteLength cs :=
  rfl

theorem byteLength_append (cs ds : List Char) :
    byteLength (cs ++ ds) = byteLength cs + byteLength ds := by
  induction cs with
  | nil => exact (Nat.zero_add (byteLength ds)).symm
  | cons c cs ih => rw [List.cons_append, byteLength_cons, byteLength_cons, ih, Nat.add_assoc]

theorem byteLength_eq_zero_iff {cs : List Char} : byteLength cs = 0 ↔ cs = [] := by
  cases cs with
  | nil => simp [byteLength]
  | cons c cs =>
    have := Char.utf8Size_pos c
    simp only [byteLength_cons, reduceCtorEq, iff_false]
    omega

theorem dropBytes?_byteLength_append (cs ds : List Char) :
    dropBytes? (byteLength cs) (cs ++ ds) = some ds := by
  induction cs with
  | nil => cases ds <;> simp [byteLength, dropBytes?]
  | cons c cs ih =>
    have hc := Char.utf8Size_pos c
    rw [List.cons_append, byteLength_cons, dropBytes?, if_neg (by omega), if_pos (by omega),
      Nat.add_sub_cancel_left, ih]

theorem takeBytes?_byteLength_append (cs ds : List Char) :
    takeBytes? (byteLength cs) (cs ++ ds) = some cs := by
  induction cs with
  | nil => cases ds <;> simp [byteLength, takeBytes?]
  | cons c cs ih =>
    have hc := Char.utf8Size_pos c
    rw [List.cons_append, byteLength_cons, takeBytes?, if_neg (by omega), if_pos (by omega),
      Nat.add_sub_cancel_left, ih, Option.map_some]

end Text

end Passage
