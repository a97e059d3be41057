import MailProtocol.Bytes.Decimal
import MailProtocol.Malformed

/-!
# Literal markers

A literal is announced at the end of a line by its length in braces: `{42}`, or `{42+}` if its
sender does not wait to be asked, with a tilde in front if the literal is binary.

There are two ways to read a marker. `LiteralMarker.read` reads it from its opening brace on, as
part of a unit, and says what is wrong with it. `LiteralMarker.atEnd?` looks for one at the end of
a line of which nothing else is known, to find out what a peer is going to send.
-/

namespace MailProtocol.Imap

/-- The announcement of a literal. -/
structure LiteralMarker where
  length : Nat
  binary : Bool
  /-- The sender waits to be asked for the literal. -/
  synchronising : Bool
deriving DecidableEq, Repr

namespace LiteralMarker

/-- If a marker begins here, whether it is binary, and what follows its opening brace. -/
def begin? : Bytes → Option (Bool × Bytes)
  | Byte.openBrace :: rest => some (false, rest)
  | Byte.tilde :: Byte.openBrace :: rest => some (true, rest)
  | _ => none

/-- Read a marker whose opening brace has been read: the marker, and what follows its line. -/
def read (binary : Bool) (s : Bytes) : Except Fault (LiteralMarker × Bytes) :=
  let digits := s.takeWhile Byte.isDigit
  if digits.isEmpty then .error .invalidLiteralLength
  else match Decimal.read? digits with
    | none => .error .literalLengthOverflow
    | some length =>
      let (synchronising, s) := match s.dropWhile Byte.isDigit with
        | Byte.plus :: rest => (false, rest)
        | rest => (true, rest)
      match s with
      | Byte.closeBrace :: Byte.cr :: Byte.lf :: rest => .ok (⟨length, binary, synchronising⟩, rest)
      | Byte.closeBrace :: _ => .error .dataAfterLiteralMarker
      | _ => .error .invalidLiteralMarker

/-- The marker that a line without its line end ends in. -/
def atEnd? (line : Bytes) : Option LiteralMarker :=
  match line.reverse with
  | Byte.closeBrace :: s =>
    let (synchronising, s) := match s with
      | Byte.plus :: rest => (false, rest)
      | rest => (true, rest)
    match s.dropWhile Byte.isDigit with
    | Byte.openBrace :: before => do
      let length ← Decimal.read? (s.takeWhile Byte.isDigit).reverse
      some ⟨length, before.head? == some Byte.tilde, synchronising⟩
    | _ => none
  | _ => none

end LiteralMarker

end MailProtocol.Imap
