import MailProtocol.Bytes.Basic

/-!
# Decimal numbers

Numbers on the wire are strings of ASCII digits, and none may reach `2 ^ 64`. `Decimal.read?`
reads digit by digit and gives up as soon as a byte is no digit or the number grows too large;
`Decimal.value` is the number a string of digits stands for, of any size, and `Decimal.write` the
shortest string for a number.
-/

namespace MailProtocol.Decimal

/-- Every number read is below this. -/
def limit : Nat := UInt64.size

/-- The number a digit stands for. -/
def digit? (b : UInt8) : Option Nat := if Byte.isDigit b then some (b.toNat - 48) else none

/-- The number after one more digit, if it stays below the limit. -/
def push? (n : Nat) (b : UInt8) : Option Nat := do
  let d ← digit? b
  if 10 * n + d < limit then some (10 * n + d) else none

/-- Read a string of digits: not empty, nothing but digits, and below the limit. -/
def read? (s : Bytes) : Option Nat := if s.isEmpty then none else s.foldlM push? 0

/-- The number that a string of digits stands for, without a limit. -/
def value (s : Bytes) : Nat := s.foldl (fun n b => 10 * n + (b.toNat - 48)) 0

/-- The digits of a number, without leading zeros. -/
def write (n : Nat) : Bytes := (Nat.toDigits 10 n).map Char.toUInt8

end MailProtocol.Decimal
