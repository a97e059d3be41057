import MailProtocol.Text.Printable

/-!
# Text between quotes

How diagnostics show a text: between double quotes, with a backslash before quotes and backslashes,
short escapes for the common controls, and the code point in hexadecimal for whatever else cannot
be shown as it is.
-/

namespace MailProtocol.Text

/-- One character between quotes. -/
def quoteChar (c : Char) : List Char :=
  match c with
  | '"' => ['\\', '"']
  | '\\' => ['\\', '\\']
  | '\n' => ['\\', 'n']
  | '\r' => ['\\', 'r']
  | '\t' => ['\\', 't']
  | '\x00' => ['\\', '0']
  | c => if isPrintable c then [c] else ['\\', 'u', '\x7b'] ++ Nat.toDigits 16 c.toNat ++ ['\x7d']

/-- A text between quotes. -/
def quoted (s : String) : String := "\"" ++ String.ofList (s.toList.flatMap quoteChar) ++ "\""

end MailProtocol.Text
