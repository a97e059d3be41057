import MailProtocol.Imap.Item.Basic
import MailProtocol.Segments

/-!
# Writing items

An item is written as it would be read back. A literal is announced by its length in braces at the
end of a line; what follows depends on the direction. A server sends its literals without asking. A
client waits until the server asks for the literal (`LiteralMode.synchronising`), so its output is
cut there, or says by a plus sign that it does not wait (`LiteralMode.nonSynchronising`).
-/

namespace MailProtocol.Imap

/-- How literals are sent. -/
inductive LiteralMode where
  /-- From a server. -/
  | inline
  /-- From a client that waits to be asked. -/
  | synchronising
  /-- From a client that does not wait. -/
  | nonSynchronising
deriving DecidableEq, Repr

namespace Item

/-- The word for an absent item. -/
def nilWord : Bytes := Bytes.ascii "NIL"

/-- One byte between quotes: quotes and backslashes get a backslash. -/
def escapeQuoted (b : UInt8) : Bytes :=
  if b = Byte.quote ∨ b = Byte.backslash then [Byte.backslash, b] else [b]

/-- A string between quotes. -/
def writeQuoted (s : Bytes) : Bytes := Byte.quote :: (s.flatMap escapeQuoted ++ [Byte.quote])

/-- The announcement of a literal of length `n`, its line end included. -/
def literalMarker (plus binary : Bool) (n : Nat) : Bytes :=
  (if binary then [Byte.tilde] else []) ++ Byte.openBrace :: Decimal.write n
    ++ (if plus then [Byte.plus] else []) ++ Byte.closeBrace :: Bytes.crlf

/-- A literal: its announcement, the wait if there is one, and its bytes. -/
def writeLiteral (mode : LiteralMode) (s : Bytes) (binary : Bool) : Segments :=
  .ofBytes (literalMarker (mode = .nonSynchronising) binary s.length)
    ++ (if mode = .synchronising then .pause else .empty) ++ .ofBytes s

mutual

/-- An item as it stands on the wire. -/
def write (mode : LiteralMode) : Item → Segments
  | atom s => .ofBytes s
  | quoted s => .ofBytes (writeQuoted s)
  | literal s binary => writeLiteral mode s binary
  | nil => .ofBytes nilWord
  | list items =>
    .ofBytes [Byte.openParen] ++ writeAll mode items ++ .ofBytes [Byte.closeParen]

/-- Items with spaces between. -/
def writeAll (mode : LiteralMode) : List Item → Segments
  | [] => .empty
  | x :: xs => write mode x ++ writeMore mode xs

/-- Further items, each after a space. -/
def writeMore (mode : LiteralMode) : List Item → Segments
  | [] => .empty
  | x :: xs => .ofBytes [Byte.space] ++ write mode x ++ writeMore mode xs

end

/-- A string as an item that is no atom, on the wire. -/
def writeString (mode : LiteralMode) (s : Bytes) : Segments :=
  if isQuotable s then .ofBytes (writeQuoted s) else writeLiteral mode s false

/-- A string as an item of any form, on the wire. -/
def writeAstring (mode : LiteralMode) (s : Bytes) : Segments :=
  if isConservativeAtom s then .ofBytes s else writeString mode s

end Item

end MailProtocol.Imap
