import MailProtocol.Bytes.Basic

/-!
# Command tags

A client numbers its commands in hexadecimal, with at least four digits, by a counter of 32 bits
that starts over when it is full. A server accepts tags of printable ASCII without the characters
that mean something else in a command or response.
-/

namespace MailProtocol.Imap.Tag

/-- A byte that a tag may have: printable, no space, and none of `(){%*"\+` but the closing
brace. -/
def isTagByte (b : UInt8) : Bool :=
  0x21 ≤ b && b ≤ 0x7E && !([Byte.openParen, Byte.closeParen, Byte.openBrace, Byte.percent,
    Byte.star, Byte.quote, Byte.backslash, Byte.plus].contains b)

/-- The tag of a number: hexadecimal digits, at least four. -/
def ofCount (n : UInt32) : Bytes :=
  let digits := (Nat.toDigits 16 n.toNat).map Char.toUInt8
  List.replicate (4 - digits.length) 48 ++ digits

/-- Where a client's numbering stands. -/
structure Generator where
  next : UInt32 := 0
deriving DecidableEq, Repr

namespace Generator

/-- The next tag, and where the numbering stands after it. -/
def take (g : Generator) : Bytes × Generator := (ofCount g.next, ⟨g.next + 1⟩)

/-- The next tags, in order. -/
def takeMany (g : Generator) : Nat → List Bytes × Generator
  | 0 => ([], g)
  | n + 1 =>
    let (tag, g) := g.take
    let (tags, g) := g.takeMany n
    (tag :: tags, g)

/-- Where the numbering stands after `n` more tags. -/
def skip (g : Generator) (n : Nat) : Generator := ⟨g.next + n.toUInt32⟩

end Generator

end MailProtocol.Imap.Tag
