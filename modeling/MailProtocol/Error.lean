import MailProtocol.Malformed

/-!
# Errors

Why an operation on a stream fails (`StreamError`), and why one on a connection does (`Error`).
Errors of a stream that only say "nothing to read or write right now" are told apart by
`StreamError.isWouldBlock`.
-/

namespace MailProtocol

/-- The kind of a stream's failure. -/
inductive StreamFailure where
  | wouldBlock
  | timedOut
  | interrupted
  | connectionReset
  | brokenPipe
  | notConnected
  | other
deriving DecidableEq, Repr

/-- A stream's failure, with the stream's own words for it. -/
structure StreamError where
  kind : StreamFailure
  text : String
deriving DecidableEq, Repr

namespace StreamError

/-- There is nothing to do right now; a later attempt may succeed. -/
def isWouldBlock (e : StreamError) : Bool := e.kind = .wouldBlock ∨ e.kind = .timedOut

/-- There is nothing to read right now. -/
def nothingYet : StreamError := ⟨.wouldBlock, "would block"⟩

/-- The stream is gone. -/
def transportClosed : StreamError := ⟨.notConnected, "transport closed"⟩

end StreamError

/-- Why an operation on a connection fails. -/
inductive Error where
  | malformed (report : Malformed)
  | timeout
  | closed
  | notConnected
  | alreadyConnected
  | alreadyUpgraded
  | noContinuation
  | continuationPending
  | unexpectedResponse (text : String)
  | stream (cause : StreamError)
deriving DecidableEq, Repr

namespace Error

/-- The wording of an error. -/
def message : Error → String
  | malformed report => report.message
  | timeout => "Timed out waiting for the peer"
  | closed => "Connection closed"
  | notConnected => "Not connected"
  | alreadyConnected => "Already connected"
  | alreadyUpgraded => "Stream already upgraded"
  | noContinuation => "No continuation is pending"
  | continuationPending => "A previous unit is still waiting for a continuation request"
  | unexpectedResponse text => "Unexpected response from server: " ++ text
  | stream cause => cause.text

/-- The error only says that there is nothing to do right now. -/
def isWouldBlock : Error → Bool
  | stream cause => cause.isWouldBlock
  | _ => false

end Error

end MailProtocol
