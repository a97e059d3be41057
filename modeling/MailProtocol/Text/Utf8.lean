import MailProtocol.Bytes.Basic

/-!
# UTF-8

`Utf8.encode` writes a text as bytes. `Utf8.decode` reads bytes one at a time with a `Decoder`,
which is between characters or inside one, and knows what the next byte of a character may be:
so overlong forms, surrogates and numbers above U+10FFFF are refused at their second byte.

Wherever the bytes stop being the beginning of a character, what was read of it counts as one
invalid sequence, and the byte at hand begins anew. `Utf8.read?` refuses invalid sequences, and
`Utf8.readLossy` puts U+FFFD in the place of each.
-/

namespace MailProtocol.Utf8

/-! ## Writing -/

/-- A byte that continues a character: its low six bits are those of `n`. -/
def continuation (n : Nat) : UInt8 := (0x80 + n % 64).toUInt8

/-- The one to four bytes of a character. -/
def encodeChar (c : Char) : Bytes :=
  let n := c.toNat
  if n < 0x80 then [n.toUInt8]
  else if n < 0x800 then [(0xC0 + n / 64).toUInt8, continuation n]
  else if n < 0x10000 then
    [(0xE0 + n / 4096).toUInt8, continuation (n / 64), continuation n]
  else
    [(0xF0 + n / 262144).toUInt8, continuation (n / 4096), continuation (n / 64), continuation n]

/-- The bytes of a text. -/
def encode (s : String) : Bytes := s.toList.flatMap encodeChar

/-! ## Reading -/

/-- Where a reader stands: between characters, or inside one of which `owed` bytes are missing,
`value` has been read, and the next byte lies between `low` and `high`. -/
inductive Decoder where
  | start
  | inside (owed value : Nat) (low high : UInt8)
deriving DecidableEq, Repr

namespace Decoder

/-- Begin a character with the byte `b`: what is finished with it, and where the reader is then. -/
def begin (b : UInt8) : List (Option Char) × Decoder :=
  if b < 0x80 then ([some (Char.ofNat b.toNat)], start)
  else if b < 0xC2 then ([none], start)
  else if b < 0xE0 then ([], inside 1 (b.toNat - 0xC0) 0x80 0xBF)
  else if b = 0xE0 then ([], inside 2 0 0xA0 0xBF)
  else if b = 0xED then ([], inside 2 0xD 0x80 0x9F)
  else if b < 0xF0 then ([], inside 2 (b.toNat - 0xE0) 0x80 0xBF)
  else if b = 0xF0 then ([], inside 3 0 0x90 0xBF)
  else if b < 0xF4 then ([], inside 3 (b.toNat - 0xF0) 0x80 0xBF)
  else if b = 0xF4 then ([], inside 3 4 0x80 0x8F)
  else ([none], start)

/-- Read one byte: the characters finished with it (`none` for an invalid sequence), and where the
reader is then. -/
def step : Decoder → UInt8 → List (Option Char) × Decoder
  | start, b => begin b
  | inside owed value low high, b =>
    if low ≤ b ∧ b ≤ high then
      let value := 64 * value + (b.toNat - 0x80)
      if owed ≤ 1 then ([some (Char.ofNat value)], start)
      else ([], inside (owed - 1) value 0x80 0xBF)
    else
      let (done, next) := begin b
      (none :: done, next)

/-- The end of the bytes: a character that was begun is invalid. -/
def finish : Decoder → List (Option Char)
  | start => []
  | inside .. => [none]

/-- Read bytes to their end, after the characters in `done`, newest first. -/
def run (done : List (Option Char)) (d : Decoder) : Bytes → List (Option Char)
  | [] => done.reverse ++ d.finish
  | b :: rest =>
    let (chars, d) := d.step b
    run (chars.reverse ++ done) d rest

end Decoder

/-- The characters of a string of bytes, with `none` for each invalid sequence. -/
def decode (s : Bytes) : List (Option Char) := Decoder.start.run [] s

/-- The text that the bytes write, if they are valid. -/
def read? (s : Bytes) : Option String := ((decode s).mapM id).map String.ofList

/-- The text that the bytes write, with U+FFFD for each invalid sequence. -/
def readLossy (s : Bytes) : String := String.ofList ((decode s).map (·.getD '\uFFFD'))

end MailProtocol.Utf8
