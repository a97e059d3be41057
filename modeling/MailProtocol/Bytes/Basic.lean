/-!
# Bytes on the wire

A string of bytes is a list of `UInt8`. This module names the bytes that the protocols give a
meaning to, and holds the two ways of comparing: exactly (equality of lists) and up to the case of
ASCII letters (`Bytes.eqIgnoreCase`).

`Bytes.compare` is the lexicographic order, and `Bytes.foldedKey` is what a table keyed without
regard to case hashes: two strings have one key iff they are equal up to case.
-/

namespace MailProtocol

/-- A string of bytes, as it stands on the wire. -/
abbrev Bytes := List UInt8

namespace Byte

/-- Horizontal tab. -/
@[match_pattern] abbrev tab : UInt8 := 9
/-- Line feed, which ends every line. -/
@[match_pattern] abbrev lf : UInt8 := 10
/-- Carriage return, which comes before the line feed. -/
@[match_pattern] abbrev cr : UInt8 := 13
/-- Space. -/
@[match_pattern] abbrev space : UInt8 := 32
/-- Double quote. -/
@[match_pattern] abbrev quote : UInt8 := 34
/-- Percent sign. -/
@[match_pattern] abbrev percent : UInt8 := 37
/-- Opening parenthesis. -/
@[match_pattern] abbrev openParen : UInt8 := 40
/-- Closing parenthesis. -/
@[match_pattern] abbrev closeParen : UInt8 := 41
/-- Asterisk. -/
@[match_pattern] abbrev star : UInt8 := 42
/-- Plus sign. -/
@[match_pattern] abbrev plus : UInt8 := 43
/-- Full stop. -/
@[match_pattern] abbrev dot : UInt8 := 46
/-- Less-than sign. -/
@[match_pattern] abbrev less : UInt8 := 60
/-- Greater-than sign. -/
@[match_pattern] abbrev greater : UInt8 := 62
/-- Opening bracket. -/
@[match_pattern] abbrev openBracket : UInt8 := 91
/-- Backslash. -/
@[match_pattern] abbrev backslash : UInt8 := 92
/-- Closing bracket. -/
@[match_pattern] abbrev closeBracket : UInt8 := 93
/-- Opening brace. -/
@[match_pattern] abbrev openBrace : UInt8 := 123
/-- Closing brace. -/
@[match_pattern] abbrev closeBrace : UInt8 := 125
/-- Tilde. -/
@[match_pattern] abbrev tilde : UInt8 := 126

/-- A decimal digit. -/
def isDigit (b : UInt8) : Bool := 48 ≤ b && b ≤ 57

/-- An ASCII letter of either case. -/
def isLetter (b : UInt8) : Bool := (65 ≤ b && b ≤ 90) || (97 ≤ b && b ≤ 122)

/-- Printable ASCII, the space included. -/
def isPrintable (b : UInt8) : Bool := 32 ≤ b && b ≤ 126

/-- The upper-case form of an ASCII letter; every other byte stands for itself. -/
def upper (b : UInt8) : UInt8 := if 97 ≤ b ∧ b ≤ 122 then b - 32 else b

end Byte

namespace Bytes

/-- The bytes of a text of ASCII characters. -/
def ascii (s : String) : Bytes := s.toList.map Char.toUInt8

/-- The pair that ends a line. -/
def crlf : Bytes := [Byte.cr, Byte.lf]

/-- Equality up to the case of ASCII letters. -/
def eqIgnoreCase (s t : Bytes) : Bool := s.map Byte.upper == t.map Byte.upper

/-- `t` begins with `s`. -/
def startsWith (t s : Bytes) : Bool := s.isPrefixOf t

/-- `t` begins with `s` up to the case of ASCII letters. -/
def startsWithIgnoreCase (t s : Bytes) : Bool :=
  (s.map Byte.upper).isPrefixOf (t.map Byte.upper)

/-- `t` ends with `s`. -/
def endsWith (t s : Bytes) : Bool := s.isSuffixOf t

/-- What a table without regard to case hashes: the upper-case form, closed by a byte that keeps
two strings in a row apart from their concatenation. -/
def foldedKey (s : Bytes) : Bytes := s.map Byte.upper ++ [255]

/-- The lexicographic order of bytes. -/
def compare (s t : Bytes) : Ordering := compareOfLessAndEq s t

end Bytes

end MailProtocol
