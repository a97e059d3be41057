import MailProtocol.Bytes.Basic

/-!
# Positions in a string of bytes

The first place of a byte, of anything but a byte, or of a whole string; and the part between two
places. A part whose ends do not lie in order inside the string does not exist (`none`).
-/

namespace MailProtocol.Bytes

/-- The part from `start` up to `stop`, if both lie in order inside the string. -/
def slice? (s : Bytes) (start stop : Nat) : Option Bytes :=
  if start ≤ stop ∧ stop ≤ s.length then some ((s.take stop).drop start) else none

/-- The part from `start` to the end, if `start` lies inside the string. -/
def sliceFrom? (s : Bytes) (start : Nat) : Option Bytes := s.slice? start s.length

/-- The first place at or after `start` whose byte satisfies `p`. -/
def find? (s : Bytes) (p : UInt8 → Bool) (start : Nat) : Option Nat :=
  ((s.drop start).findIdx? p).map (start + ·)

/-- The first place of the byte `b`. -/
def indexOf? (s : Bytes) (b : UInt8) : Option Nat := s.find? (· == b) 0

/-- The first place of the byte `b` at or after `start`. -/
def indexOfFrom? (s : Bytes) (b : UInt8) (start : Nat) : Option Nat := s.find? (· == b) start

/-- The first place at or after `start` that does not hold the byte `b`. -/
def indexOfNot? (s : Bytes) (b : UInt8) (start : Nat) : Option Nat := s.find? (· != b) start

/-- The first place where `needle` stands, counted on from `place`. -/
def indexOfBytesFrom (needle : Bytes) (place : Nat) : Bytes → Option Nat
  | [] => if needle.isEmpty then some place else none
  | b :: rest =>
    if needle.isPrefixOf (b :: rest) then some place
    else indexOfBytesFrom needle (place + 1) rest

/-- The first place where the string `needle` stands; the empty string stands at the start. -/
def indexOfBytes? (s needle : Bytes) : Option Nat := indexOfBytesFrom needle 0 s

end MailProtocol.Bytes
