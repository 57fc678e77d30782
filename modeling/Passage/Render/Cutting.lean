import Passage.Styled.Ranged
import Passage.Tag.Scan

/-! Computations that cut texts at byte offsets. A cut is asked for with a text and a range of
bytes, and it fails where the range is reversed, ends past the text or cuts a character. A
computation gives its result, or nothing once a cut has failed, together with the cuts that it
asked for. -/

namespace Passage

/-- A text, and the bytes that are to be taken out of it. -/
structure Cut where
  text : List Char
  range : Span
deriving DecidableEq

/-- The range lies in the text and between its characters. -/
structure Cut.Fits (c : Cut) : Prop where
  ordered : c.range.start ≤ c.range.stop
  start : Text.Boundary c.range.start c.text
  stop : Text.Boundary c.range.stop c.text

/-- A result, none if a cut failed on the way, and the cuts that were asked for. -/
structure Cutting (α : Type) where
  result : Option α
  cuts : List Cut

namespace Cutting

variable {α β : Type}

def pure (a : α) : Cutting α :=
  ⟨some a, []⟩

/-- Goes on with a result; without one nothing more is asked for. -/
def bind (x : Cutting α) (f : α → Cutting β) : Cutting β :=
  match x.result with
  | some a => ⟨(f a).result, x.cuts ++ (f a).cuts⟩
  | none => ⟨none, x.cuts⟩

instance : Monad Cutting where
  pure := pure
  bind := bind

/-- What may fail without asking for a cut. -/
def lift (a : Option α) : Cutting α :=
  ⟨a, []⟩

def bytes (cs : List Char) (range : Span) : Cutting (List Char) :=
  ⟨if range.start ≤ range.stop then Text.sliceBytes? range cs else none, [⟨cs, range⟩]⟩

def dropLastBytes (n : Nat) (cs : List Char) : Cutting (List Char) :=
  if n ≤ Text.byteLength cs then bytes cs ⟨0, Text.byteLength cs - n⟩ else lift none

/-- The bytes that a span of characters takes, if it lies in the text. -/
def place (cs : List Char) (s : Span) : Cutting Span :=
  lift (if s.start ≤ s.stop ∧ s.stop ≤ cs.length then some (Text.byteSpan cs s) else none)

end Cutting

namespace RangedText

/-- The cuts that read the text of each mark. -/
def reads (t : RangedText) : List Cut :=
  t.marks.map fun m => ⟨t.text, m.range⟩

/-- The cut that reads what of a mark lies in a range; none if that is nothing. -/
def readIn? (t : RangedText) (range : Span) (m : Mark) : Option Cut :=
  let start := max m.range.start range.start
  let stop := min m.range.stop range.stop
  if start < stop then some ⟨t.text, ⟨start, stop⟩⟩ else none

/-- The text of a range of bytes, with its styles: what of each mark lies in the range is read. -/
def cut (t : RangedText) (range : Span) : Cutting RangedText :=
  ⟨t.slice? range, ⟨t.text, range⟩ :: (t.marksIn range).filterMap (t.readIn? range)⟩

def append (t u : RangedText) : Cutting RangedText :=
  ⟨t.append? u, u.reads⟩

def mapMarks (f : List Char → List Char) (t : RangedText) : Cutting RangedText :=
  ⟨t.mapText? f, t.reads⟩

/-- A captured part of a match, with its styles; empty where the part is not there. -/
def group (t : RangedText) (m : Tag.Match) (i : Nat) : Cutting RangedText :=
  match m.group? i with
  | some s => do t.cut (← Cutting.place t.text s)
  | none => return ∅

/-- The characters of a captured part of a match; none where the part is not there. -/
def groupChars (t : RangedText) (m : Tag.Match) (i : Nat) : Cutting (List Char) :=
  match m.group? i with
  | some s => do Cutting.bytes t.text (← Cutting.place t.text s)
  | none => return []

def raw (t : RangedText) (m : Tag.Match) : Cutting RangedText := do
  return .plain (← Cutting.bytes t.text (← Cutting.place t.text m.span))

end RangedText

end Passage
