import MailProtocol.Token.Basic

/-!
# Looking tokens up in a list

A peer's tokens in wire order, duplicates kept, are a list. These are the questions that are asked
of it in a negotiation; each scans the list from its start, so the first token wins.
-/

namespace MailProtocol.Token

/-- The first token of this name. -/
def find? (ts : List Token) (name : String) : Option Token := ts.find? (·.is name)

/-- The first token of this tag. -/
def findByTag? (ts : List Token) (tag : String) : Option Token := ts.find? (·.hasTag tag)

/-- All tokens of this tag. -/
def findAllByTag (ts : List Token) (tag : String) : List Token := ts.filter (·.hasTag tag)

/-- A token of the same identity is there. -/
def contained (ts : List Token) (t : Token) : Bool := ts.any (·.same t)

/-- The peer is capable of `name`: some token has this name or this tag. -/
def isCapable (ts : List Token) (name : String) : Bool := ts.any (·.answers name)

/-- Two lists have the same identities in the same order. -/
def sameAll (ts us : List Token) : Bool := ts.map key == us.map key

end MailProtocol.Token
