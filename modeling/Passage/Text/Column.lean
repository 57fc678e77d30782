import Passage.Text.Column.Ranges

/-! Columns on a terminal. Wide characters and emoji take two, marks and ignorable characters
none, every other character, controls among them, one. An emoji that is joined to
the next one takes no column of its own, and a selector decides between emoji and text.
A text is measured from its end, because what follows a character can change what
it takes. -/

namespace Passage.Text

/-- What is known about the text after a character, as far as it matters. -/
inductive Follower
  | plain
  | lineFeed
  /-- An emoji that a joiner can tie to the one before it. -/
  | emoji
  | modifier
  | emojiSelector
  | textSelector
  /-- A joiner and an emoji; `styled` if an emoji selector stands before them. -/
  | joined (styled : Bool)
  /-- A keycap, a joiner and an emoji, likewise. -/
  | keycapJoined (styled : Bool)
  /-- The tags at the end of a flag, so many letters and digits of them, a joiner and an
  emoji. -/
  | tagsJoined (letters digits : Nat)
  /-- A Khmer letter that a subscript sign makes narrow. -/
  | subscript
deriving DecidableEq, Repr

def Follower.isSelected : Follower → Bool
  | emojiSelector | joined true | keycapJoined true => true
  | _ => false

/-- A modifier, which colours the emoji before it. -/
def isEmojiModifier (c : Char) : Bool :=
  inRanges [(0x1F3FB, 0x1F3FF)] c

/-- Whether a text selector makes a character narrow. -/
def isNarrowAsText (c : Char) : Bool :=
  inRanges emojiRanges c && inRanges styledRanges c && !inRanges [(0x1F200, 0x1F2FF)] c

/-- The columns of a character without regard to what follows it, and what it is to the
character before it. -/
def columnsAlone (c : Char) : Int × Follower :=
  if c = '\ufe0e' then (0, .textSelector)
  else if c = '\ufe0f' then (0, .emojiSelector)
  else if inRanges zeroRanges c then (0, .plain)
  else if inRanges subscriptRanges c then (1, .subscript)
  else if c = '\u17d8' then (3, .plain)
  else if c = '\u17a4' then (2, .plain)
  else if isEmojiModifier c then (2, .modifier)
  else if inRanges emojiRanges c then (2, .emoji)
  else if inRanges wideRanges c then (2, .plain)
  else (1, .plain)

/-- The columns of a character where what follows it changes them, and what the two are to the
character before them. -/
def columnsBefore? (c : Char) : Follower → Option (Int × Follower)
  | .emoji => if c = '\u200d' then some (0, .joined false) else none
  | .modifier =>
    if inRanges modifierBaseRanges c then some (0, .emoji)
    else if c = '\u200d' then some (0, .joined false)
    else none
  | .textSelector => if isNarrowAsText c then some (1, .plain) else none
  | .joined false =>
    if c = '\ufe0f' then some (0, .joined true)
    else if c = '\u20e3' then some (0, .keycapJoined false)
    else if c.toNat = 0xE007F then some (0, .tagsJoined 0 0)
    else if isEmojiModifier c then some (0, .modifier)
    else if inRanges emojiRanges c then some (0, .emoji)
    else none
  | .keycapJoined false => if c = '\ufe0f' then some (0, .keycapJoined true) else none
  | .tagsJoined letters digits =>
    if inRanges [(0xE0061, 0xE007A)] c && digits = 0 && letters < 6 then
      some (0, .tagsJoined (letters + 1) 0)
    else if inRanges [(0xE0030, 0xE0039)] c && digits < 3 && (0 < digits || letters < 5) then
      some (0, .tagsJoined letters (digits + 1))
    else if c.toNat = 0x1F3F4 && (digits = 3 || digits = 0 && 3 ≤ letters) then some (0, .emoji)
    else none
  | .subscript =>
    if c = '\u17d2' then some (-1, .plain)
    else if inRanges ignorableMarkRanges c then some (0, .subscript)
    else none
  | _ => none

/-- The columns of a character before a text, and what the two are to the character before
them. -/
def columnsStep (c : Char) (f : Follower) : Int × Follower :=
  if f.isSelected && inRanges styledRanges c then
    (if f = .emojiSelector then 2 else 0, .emoji)
  else if c ≤ '\xa0' then
    if c = '\n' then (1, .lineFeed)
    else if c = '\r' && f = .lineFeed then (0, .plain)
    else (1, .plain)
  else (columnsBefore? c f).getD (columnsAlone c)

def measure : List Char → Int × Follower
  | [] => (0, .plain)
  | c :: cs =>
    let (n, f) := measure cs
    let (k, f) := columnsStep c f
    (k + n, f)

def columns (cs : List Char) : Nat :=
  (measure cs).1.toNat

end Passage.Text
