/-! Reading bytes as UTF-8. A first byte tells how many tail bytes follow and what the first of
them may be; bytes that are no character refuse the whole text. -/

namespace Passage.Text

/-- Whether a byte continues a character. -/
def isTail (b : UInt8) : Bool :=
  0x80 ≤ b && b ≤ 0xBF

/-- How many tail bytes follow a first byte, and the range of the first of them; none for
bytes that start no character. -/
def tailOf? (b : UInt8) : Option (Nat × UInt8 × UInt8) :=
  if 0xC2 ≤ b && b ≤ 0xDF then some (1, 0x80, 0xBF)
  else if b = 0xE0 then some (2, 0xA0, 0xBF)
  else if b = 0xED then some (2, 0x80, 0x9F)
  else if 0xE1 ≤ b && b ≤ 0xEF then some (2, 0x80, 0xBF)
  else if b = 0xF0 then some (3, 0x90, 0xBF)
  else if 0xF1 ≤ b && b ≤ 0xF3 then some (3, 0x80, 0xBF)
  else if b = 0xF4 then some (3, 0x80, 0x8F)
  else none

/-- The code point of a first byte with its tail bytes. -/
def codePoint (b : UInt8) (tail : List UInt8) : Nat :=
  tail.foldl (fun n t => n * 64 + t.toNat % 64) (b.toNat % Nat.pow 2 (6 - tail.length))

/-- The character of a first byte and the bytes after it, and how many of these it takes. -/
def decodeChar? (b : UInt8) (rest : List UInt8) : Option (Char × Nat) :=
  if b < 0x80 then some (Char.ofNat b.toNat, 0)
  else do
    let (count, lo, hi) ← tailOf? b
    let tail := rest.take count
    let first ← tail.head?
    if tail.length = count && lo ≤ first && first ≤ hi && tail.all isTail then
      some (Char.ofNat (codePoint b tail), count)
    else none

/-- The text of bytes of which the first `taken` are read already. -/
def decodeAfter? (taken : Nat) : List UInt8 → Option (List Char)
  | [] => some []
  | b :: rest =>
    match taken with
    | taken + 1 => decodeAfter? taken rest
    | 0 => do
      let (c, taken) ← decodeChar? b rest
      return c :: (← decodeAfter? taken rest)

def decode? (bytes : List UInt8) : Option (List Char) :=
  decodeAfter? 0 bytes

/-- The text without one byte order mark at its start. -/
def skipMark : List Char → List Char
  | '\ufeff' :: cs => cs
  | cs => cs

end Passage.Text
