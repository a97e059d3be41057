import MailProtocol.Bytes.Basic

/-!
# Fragments

What a receiver keeps between calls: the bytes of the unit that is being gathered, or what it is
skipping after malformed input. A fragment that is gathered may wait for a literal that has been
announced, and then knows how long it must get.

`Outcome` is what a receiver has to report.
-/

namespace MailProtocol

/-- What is being skipped. -/
inductive Discard where
  /-- So many bytes, and then the rest of the line after them. -/
  | literal (length : Nat)
  /-- The rest of the current line. -/
  | line
deriving DecidableEq, Repr

/-- Where the reception of a unit stands. -/
inductive Fragment where
  /-- Gathering a unit, of which `bytes` are there. The grammar is not asked again before there are
  as many bytes as `required`, which is zero unless a literal has been announced. -/
  | gathering (bytes : Bytes) (required : Nat)
  /-- Bytes that came after the last unit, which the grammar has not been asked about yet. -/
  | leftover (bytes : Bytes)
  /-- Skipping the rest of malformed input. -/
  | discarding (what : Discard)
deriving DecidableEq, Repr

namespace Fragment

/-- Nothing gathered. -/
def empty : Fragment := gathering [] 0

/-- The bytes gathered. -/
def bytes : Fragment → Bytes
  | gathering bytes _ | leftover bytes => bytes
  | discarding _ => []

/-- Nothing gathered, and nothing to skip. -/
def isEmpty : Fragment → Bool
  | gathering bytes _ | leftover bytes => bytes.isEmpty
  | discarding _ => false

/-- How many bytes there must be before the grammar is asked again. -/
def required : Fragment → Nat
  | gathering _ required => required
  | leftover _ | discarding _ => 0

/-- A literal of the unit has been announced. -/
def isContinuing (f : Fragment) : Bool := 0 < f.required

/-- What is to be settled without any new byte. -/
def weight : Fragment → Nat
  | leftover _ | discarding (.literal _) => 1
  | gathering _ _ | discarding .line => 0

end Fragment

/-- What a receiver has to report. -/
inductive Outcome (υ : Type) where
  /-- A unit. -/
  | complete (unit : υ)
  /-- Nothing can be done until so many more bytes are there. -/
  | needMore (count : Nat)
  /-- A literal has been announced, of which so many bytes are missing. If `goAhead` is set, the
  peer waits to be asked for them. -/
  | continuing (missing : Nat) (goAhead : Bool)
deriving DecidableEq, Repr

end MailProtocol
