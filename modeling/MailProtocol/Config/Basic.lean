/-!
# Settings of the engine

Limits on what is received, timeouts of the socket and the habits of the IMAP side, each with a
default. A timeout of zero milliseconds means that there is none.
-/

namespace MailProtocol

/-- Limits applied while receiving. -/
structure Limits where
  /-- The longest line, its line end included. -/
  maxLineLength : Nat := 65536
  /-- The longest literal that may be announced. -/
  maxLiteralLength : Nat := 67108864
  /-- How many bytes to ask the stream for at a time. -/
  readChunkSize : Nat := 4096
deriving DecidableEq, Repr

/-- Timeouts of the socket, in milliseconds. -/
structure Timeouts where
  receiveMs : Nat := 16000
  sendMs : Nat := 16000
deriving DecidableEq, Repr

namespace Timeouts

/-- A timeout of zero is none. -/
def ofMs (ms : Nat) : Option Nat := if ms = 0 then none else some ms

/-- How long to wait for input. -/
def receive (t : Timeouts) : Option Nat := ofMs t.receiveMs

/-- How long to wait for output. -/
def send (t : Timeouts) : Option Nat := ofMs t.sendMs

end Timeouts

/-- Habits of the IMAP side. -/
structure ImapSettings where
  /-- A client sends its literals without waiting. -/
  literalPlus : Bool := false
  /-- What a server says when it asks for a literal. -/
  continuationPrompt : String := "Ready for literal data"
deriving DecidableEq, Repr

/-- All settings. -/
structure Config where
  limits : Limits := {}
  timeouts : Timeouts := {}
  imap : ImapSettings := {}
deriving DecidableEq, Repr

end MailProtocol
