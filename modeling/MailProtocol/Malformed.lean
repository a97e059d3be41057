import MailProtocol.Bytes.Basic
import MailProtocol.Text.Escape
import MailProtocol.Text.Quoted

/-!
# Malformed input

What can be wrong with the bytes of one unit (`Fault`), and the report of it (`Malformed`): the
bytes that were refused, the tag of the command they belong to where one could be read, and the
fault. Malformed input is never fatal; whoever reports it has already skipped the bytes.

`Malformed.message` shows at most the first `Malformed.shown` bytes, escaped, so a report holds no
control character that its fault does not bring along.
-/

namespace MailProtocol

/-- What is wrong with a unit. -/
inductive Fault where
  | lineTooLong
  | bareCarriageReturn
  | bareLineFeed
  | missingLineEnding
  | missingTag
  | invalidTag
  | missingCommand
  | uidWithoutCommand
  | invalidCommandLine
  | missingResponse
  | invalidCondition
  | unclosedParenthesis
  | unopenedParenthesis
  | unclosedSection
  | unterminatedQuoted
  | invalidEscape
  | literalLengthOverflow
  | invalidLiteralLength
  | invalidLiteralMarker
  | dataAfterLiteralMarker
  | literalTooLong (length : Nat)
  | literalInCode
  | unclosedCode
  | emptyCode
  | invalidIndicator
  | emptyCommand
  | tooFewFields (expected found : Nat)
  | invalidNumber
  | unterminatedTimestamp
  | other (text : String)
deriving DecidableEq, Repr

/-- The wording of a fault. -/
def Fault.message : Fault → String
  | lineTooLong => "Line too long"
  | bareCarriageReturn => "Bare CR"
  | bareLineFeed => "Bare LF"
  | missingLineEnding => "Missing line ending"
  | missingTag => "Missing tag"
  | invalidTag => "Invalid tag"
  | missingCommand => "Missing command"
  | uidWithoutCommand => "UID without command"
  | invalidCommandLine => "Invalid command line"
  | missingResponse => "Missing response"
  | invalidCondition => "Invalid response condition"
  | unclosedParenthesis => "Unclosed parenthesis"
  | unopenedParenthesis => "Unopened parenthesis"
  | unclosedSection => "Unclosed section bracket"
  | unterminatedQuoted => "Unterminated quoted string"
  | invalidEscape => "Invalid escape in quoted string"
  | literalLengthOverflow => "Literal length overflow"
  | invalidLiteralLength => "Invalid literal length"
  | invalidLiteralMarker => "Invalid literal marker"
  | dataAfterLiteralMarker => "Extra data after literal marker"
  | literalTooLong length => "Literal of " ++ toString length ++ " bytes exceeds limit"
  | literalInCode => "Literal in response code"
  | unclosedCode => "Unclosed response code"
  | emptyCode => "Empty response code"
  | invalidIndicator => "Invalid status indicator"
  | emptyCommand => "Empty command"
  | tooFewFields expected found =>
    "Too few fields in listing: expected " ++ toString expected ++ ", got " ++ toString found
  | invalidNumber => "Invalid number in listing"
  | unterminatedTimestamp => "Unterminated APOP timestamp"
  | other text => text

/-- A unit that could not be read. -/
structure Malformed where
  /-- What is wrong. -/
  fault : Fault
  /-- The tag of the command, where one could be read. -/
  tag : Option Bytes := none
  /-- The bytes that were refused. -/
  raw : Bytes := []
deriving DecidableEq, Repr

namespace Malformed

/-- How many of the refused bytes a report shows. -/
def shown : Nat := 128

/-- The report as one line of text. -/
def message (m : Malformed) : String :=
  let head := "Malformed input: " ++ m.fault.message
  if m.raw.isEmpty then head
  else
    let dots := if m.raw.length > shown then "..." else ""
    head ++ " (" ++ Text.escape (m.raw.take shown) ++ dots ++ ")"

/-- The report with all its parts, for diagnostics. -/
def detail (m : Malformed) : String :=
  let tag := match m.tag with
    | none => "None"
    | some tag => "Some(" ++ Text.showBytes tag ++ ")"
  "Malformed \x7b raw: " ++ Text.showBytes m.raw ++ ", tag: " ++ tag ++ ", reason: "
    ++ Text.quoted m.fault.message ++ " \x7d"

end Malformed

end MailProtocol
