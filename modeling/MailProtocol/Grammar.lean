import MailProtocol.Malformed

/-!
# Grammars of incremental reception

A grammar takes one unit off the front of a fragment, which is what has been received and not yet
used. Either the unit is complete and some of the fragment is left over (`Parsed.complete`), or the
grammar says what it needs before it can go on (`Needs`): one more line, or the rest of a literal
that has been announced. A grammar may carry state from one unit to the next.

A fragment always ends at the end of a line or of an announced literal, so a grammar can start over
from the front of the fragment each time.

`Grammar.Lawful` is what a receiver relies on: a complete unit uses up at least one byte, and what
is left over is the end of the fragment.
-/

namespace MailProtocol

/-- What must follow a fragment before its first unit can be complete. -/
inductive Needs where
  /-- One more line. -/
  | line
  /-- So many more bytes, which finish an announced literal. If it is synchronising, the peer waits
  to be asked for them. -/
  | literal (missing : Nat) (synchronising : Bool)
deriving DecidableEq, Repr

/-- What a grammar makes of a fragment. -/
inductive Parsed (υ : Type) where
  /-- A unit, and what is left of the fragment. -/
  | complete (unit : υ) (rest : Bytes)
  | incomplete (needs : Needs)
deriving DecidableEq, Repr

/-- How units of type `υ` are read, with a state of type `γ` between them. -/
structure Grammar (γ υ : Type) where
  /-- Take one unit off the front of a fragment. -/
  parse : γ → Bytes → γ × Except Malformed (Parsed υ)
  /-- The longest line that is accepted, its line end included. -/
  maxLineLength : Nat
  /-- The length of the literal that a line of a malformed unit announces, if the peer is going to
  send it all the same. The line comes without its line end. -/
  literalToDiscard : γ → Bytes → Option Nat := fun _ _ => none
  /-- What asks the peer for a synchronising literal, on the side that asks. -/
  continuationRequest : Option Bytes := none
  /-- Forget what was kept from earlier units. -/
  reset : γ → γ := id

/-- A complete unit uses up at least one byte of the fragment's front and nothing else. -/
structure Grammar.Lawful {γ υ : Type} (G : Grammar γ υ) : Prop where
  suffix : ∀ {g g' : γ} {fragment : Bytes} {unit : υ} {rest : Bytes},
    G.parse g fragment = (g', .ok (.complete unit rest)) → rest <:+ fragment
  length_lt : ∀ {g g' : γ} {fragment : Bytes} {unit : υ} {rest : Bytes},
    G.parse g fragment = (g', .ok (.complete unit rest)) → rest.length < fragment.length

end MailProtocol
