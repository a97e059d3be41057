/-!
# Labels of log lines

Every log line about a connection begins with a label: the protocol, the connection's number and,
in brackets, what is known of the peer, the user and the encryption.

Peer and user names come from outside. They lose their control characters and all but their first
`LogLabel.nameLength` characters, so a name can neither end a line nor fill it.

`LogLabel.Shared` is a family of labels known by number, in which several numbers can stand for one
label: a change through one of them shows through all.
-/

namespace MailProtocol

/-- What the log says about a connection at the start of each line. -/
structure LogLabel where
  protocol : String
  /-- What tells this connection from others of its protocol. -/
  connection : String
  peer : Option String := none
  user : Option String := none
  tls : Bool := false
deriving DecidableEq, Repr

namespace LogLabel

/-- How many characters of a name are kept. -/
def nameLength : Nat := 64

/-- A control character, of ASCII or of the block that follows it. -/
def isControl (c : Char) : Bool := c.toNat < 0x20 || (0x7F ≤ c.toNat && c.toNat ≤ 0x9F)

/-- A name without control characters, cut to the length that is kept. -/
def sanitise (name : String) : String :=
  String.ofList ((name.toList.filter (!isControl ·)).take nameLength)

/-- Record the peer's name. -/
def setPeer (l : LogLabel) (peer : String) : LogLabel := { l with peer := some (sanitise peer) }

/-- Record the user's name. -/
def setUser (l : LogLabel) (user : String) : LogLabel := { l with user := some (sanitise user) }

/-- Record whether the stream is encrypted. -/
def setTls (l : LogLabel) (tls : Bool) : LogLabel := { l with tls }

/-- What stands in the brackets, in order. -/
def details (l : LogLabel) : List String :=
  l.peer.toList ++ (l.user.map ("user=" ++ ·)).toList ++ (if l.tls then ["tls"] else [])

/-- The label as text. -/
def render (l : LogLabel) : String :=
  let name := l.protocol ++ ":" ++ l.connection
  match l.details with
  | [] => name
  | details => name ++ "[" ++ " ".intercalate details ++ "]"

/-- Labels known by number, several of which may be one and the same label. -/
structure Shared where
  labels : List LogLabel
  /-- For each number, the place of its label. -/
  places : List Nat
deriving DecidableEq, Repr

namespace Shared

/-- A family of one label, known by the number zero. -/
def single (l : LogLabel) : Shared := ⟨[l], [0]⟩

/-- The label known by a number. -/
def get? (s : Shared) (n : Nat) : Option LogLabel := do s.labels[← s.places[n]?]?

/-- Change the label known by a number, wherever it is shared. -/
def modify (s : Shared) (n : Nat) (f : LogLabel → LogLabel) : Shared :=
  match s.places[n]? with
  | none => s
  | some place => { s with labels := s.labels.modify place f }

/-- Give the label known by a number one more number. -/
def share (s : Shared) (n : Nat) : Shared :=
  { s with places := s.places ++ s.places[n]?.toList }

/-- Give a number to a copy of the label known by a number. -/
def copy (s : Shared) (n : Nat) : Shared :=
  match s.get? n with
  | none => s
  | some l => ⟨s.labels ++ [l], s.places ++ [s.labels.length]⟩

/-- All labels as text, by number. -/
def render (s : Shared) : List String :=
  s.places.filterMap fun p => s.labels[p]?.map LogLabel.render

end Shared

end LogLabel

end MailProtocol
