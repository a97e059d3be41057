import MailProtocol.Bytes.Decimal
import MailProtocol.Bytes.Split
import MailProtocol.Pop3.Response

/-!
# Listings

What a server says about the maildrop and its messages: fields between spaces, in the text of a
status or in a line of a body. Servers may add further fields, which are ignored.
-/

namespace MailProtocol.Pop3

/-- The number of messages and their size together. -/
structure DropListing where
  messageCount : Nat
  size : Nat
deriving DecidableEq, Repr

/-- The size of a message. -/
structure ScanListing where
  messageNumber : Nat
  size : Nat
deriving DecidableEq, Repr

/-- The unique identifier of a message. -/
structure UniqueIdListing where
  messageNumber : Nat
  uniqueId : Bytes
deriving DecidableEq, Repr

namespace Listing

/-- The text that a listing stands in. -/
def text? : Response → Option Bytes
  | .status _ text => some text.text
  | .line content => some content
  | .continuation _ | .termination => none

/-- The first two fields. -/
def twoFields (text : Bytes) : Except Malformed (Bytes × Bytes) :=
  match text.fields Byte.space with
  | first :: second :: _ => .ok (first, second)
  | fields => .error { fault := .tooFewFields 2 fields.length, raw := text }

/-- The number that a field of `text` stands for. -/
def number (text field : Bytes) : Except Malformed Nat :=
  match Decimal.read? field with
  | some n => .ok n
  | none => .error { fault := .invalidNumber, raw := text }

end Listing

/-- Read a listing of the maildrop. -/
def DropListing.parse (text : Bytes) : Except Malformed DropListing := do
  let (first, second) ← Listing.twoFields text
  return ⟨← Listing.number text first, ← Listing.number text second⟩

/-- Read a listing of a message's size. -/
def ScanListing.parse (text : Bytes) : Except Malformed ScanListing := do
  let (first, second) ← Listing.twoFields text
  return ⟨← Listing.number text first, ← Listing.number text second⟩

/-- Read a listing of a message's unique identifier. -/
def UniqueIdListing.parse (text : Bytes) : Except Malformed UniqueIdListing := do
  let (first, second) ← Listing.twoFields text
  return ⟨← Listing.number text first, second⟩

end MailProtocol.Pop3
