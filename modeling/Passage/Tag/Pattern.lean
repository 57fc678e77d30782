import Passage.Text.Blank
import Passage.Text.DecimalDigit
import Passage.Text.Literal
import Passage.Text.Utf8

/-! Tag patterns. A tag is spelled as a sequence of pieces, and reading a piece never
has to be taken back: each takes as much as its class allows and the next piece
starts with a character outside that class, or it runs up to the first closing tag. So a
pattern matches at a position in at most one way. The three blank patterns
match stretches of blanks by where they stand and what they hold. -/

namespace Passage.Tag

/-- A part of a tag. `digits`, `upTo`, `attributes` and `content` are captured. -/
inductive Piece
  /-- These characters. -/
  | literal (cs : List Char)
  /-- Any number of blanks. -/
  | blanks
  /-- One blank or more. -/
  | someBlanks
  /-- One decimal digit or more. -/
  | digits
  /-- Everything before the next occurrence of a character. -/
  | upTo (stop : Char)
  /-- A blank and everything before the next `>`. -/
  | attributes
  /-- Everything before the next occurrence of a closing tag, and that tag. -/
  | content (closing : List Char)
deriving DecidableEq

inductive Pattern
  /-- The blanks at either end of the text. -/
  | blankEdges
  /-- A stretch of blanks that holds a line feed. -/
  | lineBreaks
  /-- A stretch of blanks. -/
  | blanks
  /-- A tag spelled by its pieces. -/
  | tag (pieces : List Piece)
deriving DecidableEq

/-- How many characters a match takes, and where its captured parts lie in it. -/
structure Extent where
  length : Nat
  groups : List Span
deriving DecidableEq, Repr

/-- The length of the part a piece takes from the start of a text, and where in that part
its capture lies. -/
def Piece.take? : Piece → List Char → Option (Nat × List Span)
  | literal l, cs => (Text.dropLiteral? l cs).map fun _ => (l.length, [])
  | blanks, cs => some ((cs.takeWhile Text.isBlank).length, [])
  | someBlanks, cs =>
    let n := (cs.takeWhile Text.isBlank).length
    if n = 0 then none else some (n, [])
  | digits, cs =>
    let n := (cs.takeWhile Text.isDecimalDigit).length
    if n = 0 then none else some (n, [⟨0, n⟩])
  | upTo stop, cs =>
    let n := (cs.takeWhile (· != stop)).length
    some (n, [⟨0, n⟩])
  | attributes, cs =>
    if (cs.head?.any Text.isBlank) then
      let n := (cs.takeWhile (· != '>')).length
      some (n, [⟨0, n⟩])
    else none
  | content closing, cs =>
    (Text.beforeLiteral? closing cs).map fun before =>
      (before.length + closing.length, [⟨0, before.length⟩])

def shift (n : Nat) (s : Span) : Span :=
  ⟨s.start + n, s.stop + n⟩

/-- Reads the pieces one after the other; `taken` characters of the tag are read. -/
def readPieces? (taken : Nat) : List Piece → List Char → Option Extent
  | [], _ => some ⟨taken, []⟩
  | p :: ps, cs => do
    let (n, captured) ← p.take? cs
    let rest ← readPieces? (taken + n) ps (cs.drop n)
    return ⟨rest.length, captured.map (shift taken) ++ rest.groups⟩

/-- The match at the start of a text that begins at the start of the whole text
(`atStart`) or later. -/
def Pattern.match? (p : Pattern) (atStart : Bool) (cs : List Char) : Option Extent :=
  match p with
  | blankEdges =>
    let n := (cs.takeWhile Text.isBlank).length
    if n ≠ 0 && (atStart || (cs.drop n).isEmpty) then some ⟨n, []⟩ else none
  | lineBreaks =>
    let run := cs.takeWhile Text.isBlank
    if run.contains '\n' then some ⟨run.length, []⟩ else none
  | blanks =>
    let n := (cs.takeWhile Text.isBlank).length
    if n ≠ 0 then some ⟨n, []⟩ else none
  | tag pieces => readPieces? 0 pieces cs

/-! ## The tags -/

namespace Pattern

/-- `style="S"` after its blanks. -/
def styleIs (style : List Char) : List Piece :=
  [.someBlanks, .literal ("style=\"".toList ++ style ++ ['"'])]

/-- `<para style="S">…</para>`: the content is captured without its leading blanks. -/
def para (style : List Char) : Pattern :=
  tag (.literal "<para".toList :: styleIs style ++
    [.blanks, .literal ['>'], .blanks, .content "</para>".toList])

/-- `<para style="S"/>`. -/
def emptyPara (style : List Char) : Pattern :=
  tag (.literal "<para".toList :: styleIs style ++ [.blanks, .literal "/>".toList])

/-- `<char style="S">…</char>`: the content is captured without its leading blanks. -/
def span (style : List Char) : Pattern :=
  tag (.literal "<char".toList :: styleIs style ++
    [.blanks, .literal ['>'], .blanks, .content "</char>".toList])

/-- `<para style="qN">…</para>`: the level and the content are captured. -/
def poeticLine : Pattern :=
  tag [.literal "<para".toList, .someBlanks, .literal "style=\"q".toList, .digits,
    .literal ['"'], .blanks, .literal ['>'], .blanks, .content "</para>".toList]

/-- `<verse number="…" style="v"/>`: the number is captured. -/
def verse : Pattern :=
  tag [.literal "<verse".toList, .someBlanks, .literal "number=\"".toList, .upTo '"',
    .literal ['"'], .someBlanks, .literal "style=\"v\"".toList, .blanks,
    .literal "/>".toList]

/-- `<note …>…</note>`: the attribute list and the body are captured. -/
def note : Pattern :=
  tag [.literal "<note".toList, .attributes, .literal ['>'], .content "</note>".toList]

end Pattern

end Passage.Tag
