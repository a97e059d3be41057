import MailProtocol.Bytes.Basic

/-!
# Bytes made visible

`escape` renders bytes for logs and diagnostics. Printable ASCII stands for itself and everything
else is written with a backslash, so that whatever the other end sent, the result is printable.
-/

namespace MailProtocol.Text

/-- The digit of `n < 16` in upper-case hexadecimal. -/
def hexUpper (n : Nat) : Char := (Nat.digitChar n).toUpper

/-- One byte made visible. -/
def escapeByte (b : UInt8) : List Char :=
  if Byte.isPrintable b then [Char.ofNat b.toNat]
  else if b = Byte.lf then ['\\', 'n']
  else if b = Byte.cr then ['\\', 'r']
  else if b = Byte.tab then ['\\', 't']
  else ['\\', 'x', hexUpper (b.toNat / 16), hexUpper (b.toNat % 16)]

/-- Bytes made visible. -/
def escape (s : Bytes) : String := String.ofList (s.flatMap escapeByte)

/-- Bytes as diagnostics show them: made visible, between quotes. -/
def showBytes (s : Bytes) : String := "b\"" ++ escape s ++ "\""

end MailProtocol.Text
