import MailProtocol.Config.Basic
import MailProtocol.Grammar
import MailProtocol.Line
import MailProtocol.Pop3.Body
import MailProtocol.Pop3.ResponseCode
import MailProtocol.Segments
import MailProtocol.Text.Utf8

/-!
# POP3 responses

A response is a status, a challenge during authentication, a line of a body, or the end of a body.
Which one a line is depends on what came before: a client expects a body after some commands
(`Reading.expectsBody`), and a positive status then begins it.

The expectation is used up by the next line that is neither a line of a body nor a lone dot,
whatever that line turns out to be.
-/

namespace MailProtocol.Pop3

/-- Whether a status is good or bad news. -/
inductive Indicator where
  | positive
  | negative
deriving DecidableEq, Repr

namespace Indicator

/-- The word for an indicator. -/
def name : Indicator → String
  | positive => "+OK"
  | negative => "-ERR"

/-- The word on the wire. -/
def word (i : Indicator) : Bytes := Bytes.ascii i.name

/-- The indicator of a word, in any case. -/
def ofWord? (s : Bytes) : Option Indicator :=
  [positive, negative].find? fun i => Bytes.eqIgnoreCase s i.word

end Indicator

/-- The text of a status, and the code in front of it. -/
structure StatusText where
  code : Option Token := none
  text : Bytes := []
deriving DecidableEq, Repr

/-- What a client receives. -/
inductive Response where
  | status (indicator : Indicator) (text : StatusText)
  /-- A challenge during authentication. -/
  | continuation (text : Bytes)
  /-- A line of a body, without its line end and as it was before dots were added. -/
  | line (content : Bytes)
  /-- The end of a body. -/
  | termination
deriving DecidableEq, Repr

namespace Response

/-- The response is a status of good news. -/
def isPositive : Response → Bool
  | status .positive _ => true
  | _ => false

/-- The response is a status of bad news. -/
def isNegative : Response → Bool
  | status .negative _ => true
  | _ => false

/-! ## Writing -/

/-- A response without its line end. -/
def writeContent : Response → Bytes
  | status indicator text =>
    indicator.word
      ++ (text.code.map fun code =>
        Byte.space :: Byte.openBracket :: Utf8.encode code.name ++ [Byte.closeBracket]).getD []
      ++ (if text.text.isEmpty then [] else Byte.space :: text.text)
  | continuation text => Byte.plus :: Byte.space :: text
  | line content => stuff content
  | termination => [Byte.dot]

/-- A response on the wire. -/
def write (r : Response) : Segments := .ofBytes (r.writeContent ++ Bytes.crlf)

/-! ## Reading -/

/-- What a client keeps in mind from line to line. -/
structure Reading where
  /-- The next positive status begins a body. -/
  expectsBody : Bool := false
  /-- A body is being read. -/
  inBody : Bool := false
deriving DecidableEq, Repr

/-- Read what follows the indicator of a status. -/
def parseText (s : Bytes) : Except Fault StatusText :=
  match s with
  | Byte.openBracket :: inner =>
    let name := inner.takeWhile (· != Byte.closeBracket)
    match inner.dropWhile (· != Byte.closeBracket) with
    | [] => .error .unclosedCode
    | _ :: after =>
      if name.isEmpty then .error .emptyCode
      else
        let text := match after with
          | Byte.space :: text => text
          | text => text
        .ok { code := some (ResponseCode.ofName (Utf8.readLossy name)), text }
  | text => .ok { text }

/-- Read a line that is neither in a body nor a lone dot. -/
def parseStatus (expectsBody : Bool) (content : Bytes) : Reading × Except Fault Response :=
  let (word, rest) := content.splitWord
  match Indicator.ofWord? word with
  | some indicator =>
    match parseText rest with
    | .error fault => ({}, .error fault)
    | .ok text => ({ inBody := expectsBody && indicator = .positive }, .ok (status indicator text))
  | none =>
    if word = [Byte.plus] then ({}, .ok (continuation rest)) else ({}, .error .invalidIndicator)

/-- Read a line. -/
def parseLine (r : Reading) (content : Bytes) : Reading × Except Fault Response :=
  if content = [Byte.dot] then ({ r with inBody := false }, .ok termination)
  else if r.inBody then (r, .ok (line (unstuff content)))
  else parseStatus r.expectsBody content

/-- Read a response. -/
def parse (r : Reading) (s : Bytes) : Reading × Except Malformed (Parsed Response) :=
  match Line.first s with
  | .error fault => (r, .error { fault })
  | .ok (content, rest) =>
    match parseLine r content with
    | (r, .error fault) => (r, .error { fault })
    | (r, .ok unit) => (r, .ok (.complete unit rest))

/-- How clients read responses. -/
def grammar (config : Config) : Grammar Reading Response where
  parse := parse
  maxLineLength := config.limits.maxLineLength
  reset _ := {}

theorem suffix_of_parse {r r' : Reading} {s rest : Bytes} {unit : Response}
    (h : parse r s = (r', .ok (.complete unit rest))) :
    rest <:+ s ∧ rest.length < s.length := by
  unfold parse at h
  split at h
  · simp at h
  · next hl =>
    split at h
    · simp at h
    · simp only [Prod.mk.injEq, Except.ok.injEq, Parsed.complete.injEq] at h
      exact h.2.2 ▸ Line.suffix_of_first hl

/-- Reading a response uses up its line and nothing else. -/
theorem lawful_grammar (config : Config) : (grammar config).Lawful where
  suffix h := (suffix_of_parse h).1
  length_lt h := (suffix_of_parse h).2

end Response

end MailProtocol.Pop3
