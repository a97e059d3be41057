import MailProtocol.LogLabel
import MailProtocol.Receiver
import MailProtocol.Segments

/-!
# Connections

A connection ties a transport, a receiver and a writer together. It moves strictly forward: a stream
is attached once, may be replaced once, and after `Connection.close` nothing leads back.

An `Endpoint` says what one side of a protocol speaks: how it reads units and how it writes them.
A connection keeps two records that only grow, the lines of its log and what it has written.
-/

namespace MailProtocol

/-- Where a connection stands in its life. -/
inductive Lifecycle where
  | unconnected
  | connected
  | upgraded
  | closed
deriving DecidableEq, Repr

/-- A connection's hold on its stream. -/
inductive Link where
  | unconnected
  | connected (t : Transport)
  | closed
deriving DecidableEq, Repr

namespace Link

/-- Where a connection with this link stands in its life. -/
def lifecycle : Link → Lifecycle
  | unconnected => .unconnected
  | connected t => if t.upgraded then .upgraded else .connected
  | closed => .closed

/-- The transport, while there is one. -/
def transport? : Link → Option Transport
  | connected t => some t
  | unconnected | closed => none

end Link

/-- How serious a line of the log is. -/
inductive LogLevel where
  | info
  | warn
deriving DecidableEq, Repr

/-- A line of the log. -/
structure LogLine where
  level : LogLevel
  text : String
deriving DecidableEq, Repr

/-- What one side of a protocol speaks: it reads units of type `υ` with a state of type `γ`, and
writes units of type `ω` as its settings of type `δ` say. -/
structure Endpoint (γ υ δ ω : Type) where
  grammar : Grammar γ υ
  lawful : grammar.Lawful
  write : δ → ω → Segments

/-- A connection. -/
structure Connection (γ υ δ : Type) where
  label : LogLabel
  /-- How many bytes to ask a stream for at a time. -/
  chunkSize : Nat
  link : Link := .unconnected
  receiver : Receiver γ
  /-- How units are written. -/
  writer : δ
  /-- Units and refusals that have been read and not yet been handed out. -/
  queue : List (Except Malformed υ) := []
  /-- Segments that wait until the peer asks for them. -/
  pending : List Bytes := []
  /-- The peer waits to be asked for a literal that came after what is in the queue. -/
  goAheadPending : Bool := false
  /-- With nothing to read, say so instead of failing. -/
  idle : Bool := false
  /-- The lines of the log, in order. -/
  log : List LogLine := []
  /-- What has been written, write by write. -/
  output : List Bytes := []

namespace Connection

variable {γ υ δ ω : Type}

/-- Where the connection stands in its life. -/
def lifecycle (c : Connection γ υ δ) : Lifecycle := c.link.lifecycle

/-- The connection has a stream. -/
def isOpen (c : Connection γ υ δ) : Bool := c.link.transport?.isSome

/-- Segments of the last unit are still to be sent. -/
def isAwaiting (c : Connection γ υ δ) : Bool := !c.pending.isEmpty

/-! ## The log -/

/-- Add a line to the log, after the label. -/
def note (c : Connection γ υ δ) (level : LogLevel) (text : String) : Connection γ υ δ :=
  { c with log := c.log ++ [⟨level, c.label.render ++ " " ++ text⟩] }

/-- Add an ordinary line. -/
def info (c : Connection γ υ δ) (text : String) : Connection γ υ δ := c.note .info text

/-- Add a warning. -/
def warn (c : Connection γ υ δ) (text : String) : Connection γ υ δ := c.note .warn text

/-- Warn of malformed input. -/
def warnMalformed (c : Connection γ υ δ) (report : Malformed) : Connection γ υ δ :=
  c.warn report.message

/-! ## Life -/

variable (E : Endpoint γ υ δ ω)

/-- Why a stream cannot be attached. -/
def attachError? (c : Connection γ υ δ) : Option Error :=
  match c.link with
  | .unconnected => none
  | .connected _ => some .alreadyConnected
  | .closed => some .closed

/-- Why nothing can be sent or received. -/
def openError? (c : Connection γ υ δ) : Option Error :=
  match c.link with
  | .unconnected => some .notConnected
  | .connected _ => none
  | .closed => some .closed

/-- Attach a stream, whose peer may have a name. -/
def attach (c : Connection γ υ δ) (stream : Stream) (peer : Option String) :
    Except Error Unit × Connection γ υ δ :=
  match c.attachError? with
  | some e => (.error e, c)
  | none =>
    let label := match peer with
      | some peer => c.label.setPeer peer
      | none => c.label
    let link := .connected (.ofStream stream c.chunkSize)
    (.ok (), { c with label, link }.info "Connected")

/-- Give up the stream, and all that was not handed out or sent. -/
def close (c : Connection γ υ δ) : Connection γ υ δ :=
  let c := if c.isOpen then c.info "Connection closed" else c
  { c with
    link := .closed
    receiver := c.receiver.reset E.grammar
    queue := []
    pending := []
    goAheadPending := false }

/-- Replace the stream by what `handshake` makes of it. If that fails, the connection is closed. -/
def upgrade (c : Connection γ υ δ) (handshake : Stream → Except Error Stream) :
    Except Error Unit × Connection γ υ δ :=
  match c.link with
  | .unconnected => (.error .notConnected, c)
  | .closed => (.error .closed, c)
  | .connected t =>
    if t.upgraded then (.error .alreadyUpgraded, c)
    else match t.upgrade handshake with
      | (.error e, t) =>
        let c := { c with link := .connected t }.warn ("Stream upgrade failed: " ++ e.message)
        (.error e, c.close E)
      | (.ok (), t) =>
        let c := { c with link := .connected t, label := c.label.setTls true }
        (.ok (), c.info "Stream upgraded")

/-- Change the settings of the writer. -/
def setWriter (c : Connection γ υ δ) (writer : δ) : Connection γ υ δ := { c with writer }

/-- Change what the grammar keeps from unit to unit. -/
def mapState (c : Connection γ υ δ) (f : γ → γ) : Connection γ υ δ :=
  { c with receiver := { c.receiver with state := f c.receiver.state } }

/-- Change the stream, if there is one. -/
def mapStream (c : Connection γ υ δ) (f : Stream → Stream) : Connection γ υ δ :=
  match c.link with
  | .connected t => { c with link := .connected (t.mapStream f) }
  | _ => c

end Connection

end MailProtocol
