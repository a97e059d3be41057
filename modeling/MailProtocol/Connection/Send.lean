import MailProtocol.Connection.Basic

/-!
# Sending

The first segment of a unit is written at once. If the unit has more, they wait until the peer asks
for them, and no other unit can be sent before. A failure to write closes the connection.
-/

namespace MailProtocol

/-- How far a unit has been sent. -/
inductive SendOutcome where
  | sent
  /-- The peer must ask for the rest. -/
  | awaiting
deriving DecidableEq, Repr

namespace Connection

variable {γ υ δ ω : Type} (E : Endpoint γ υ δ ω)

/-- Close the connection because writing failed. -/
def writeFailed (c : Connection γ υ δ) (e : StreamError) : Except Error Unit × Connection γ υ δ :=
  let c := (c.warn ("Write failed: " ++ e.text)).close E
  (.error (if e.isWouldBlock then .timeout else .stream e), c)

/-- Write to the stream, and flush it. -/
def transmit (c : Connection γ υ δ) (data : Bytes) : Except Error Unit × Connection γ υ δ :=
  match c.link with
  | .unconnected | .closed => (.error .notConnected, c)
  | .connected t =>
    match t.writeAll data with
    | (.error e, t) => { c with link := .connected t }.writeFailed E e
    | (.ok (), t) =>
      let output := if data.isEmpty then c.output else c.output ++ [data]
      match t.flush with
      | (.error e, t) => { c with link := .connected t, output }.writeFailed E e
      | (.ok (), t) => (.ok (), { c with link := .connected t, output })

/-- How far the last unit has been sent. -/
def sendOutcome (c : Connection γ υ δ) : SendOutcome := if c.isAwaiting then .awaiting else .sent

/-- Write a segment, after which `pending` is left to send. -/
def sendSegment (c : Connection γ υ δ) (segment : Bytes) (pending : List Bytes) :
    Except Error SendOutcome × Connection γ υ δ :=
  match c.transmit E segment with
  | (.error e, c) => (.error e, c)
  | (.ok (), c) =>
    let c := { c with pending }
    (.ok c.sendOutcome, c)

/-- Send a unit, as far as the peer need not ask for it. -/
def send (c : Connection γ υ δ) (unit : ω) : Except Error SendOutcome × Connection γ υ δ :=
  match c.openError? with
  | some e => (.error e, c)
  | none =>
    if c.isAwaiting then (.error .continuationPending, c)
    else
      let segments := E.write c.writer unit
      c.sendSegment E segments.first segments.rest

/-- Send the next segment of the last unit. -/
def sendContinuation (c : Connection γ υ δ) : Except Error SendOutcome × Connection γ υ δ :=
  match c.openError? with
  | some e => (.error e, c)
  | none =>
    match c.pending with
    | [] => (.error .noContinuation, c)
    | segment :: pending => c.sendSegment E segment pending

end Connection

end MailProtocol
