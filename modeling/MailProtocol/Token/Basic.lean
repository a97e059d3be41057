import MailProtocol.Bytes.Basic
import MailProtocol.Text.Case
import MailProtocol.Text.Quoted
import MailProtocol.Text.Utf8

/-!
# Tokens of open vocabularies

Capabilities and response codes are open vocabularies: servers send names nobody has heard of. A
`Token` is such a name, with arguments where the protocol gives it some. Its identity is its name
up to the case of ASCII letters (`Token.same`), whatever its arguments are and wherever it was
defined; `Token.key` is what equal tokens share.

A name may have two parts, cut at the first `/` or `=`: `SASL/PLAIN` has the tag `SASL` and the
subvalue `PLAIN`.
-/

namespace MailProtocol

/-- A name of an open vocabulary. -/
structure Token where
  /-- The name, in the case in which it was defined or received. -/
  name : String
  args : List String := []
  /-- The name belongs to its vocabulary's registry. -/
  wellKnown : Bool := false
deriving DecidableEq, Repr

namespace Token

/-- A token of a registry. -/
def known (name : String) : Token := { name, wellKnown := true }

/-- A token that nothing is known about. -/
def fresh (name : String) : Token := { name }

/-- The token with other arguments. -/
def withArgs (t : Token) (args : List String) : Token := { t with args }

/-- What tokens of one identity share. -/
def key (t : Token) : String := Text.upper t.name

/-- Two tokens have one identity. -/
def same (t u : Token) : Bool := t.key == u.key

/-- What a table without regard to case hashes for this token. -/
def hashKey (t : Token) : Bytes := Bytes.foldedKey (Utf8.encode t.name)

/-- The token's name is `name` up to case. -/
def is (t : Token) (name : String) : Bool := Text.eqIgnoreCase t.name name

/-- A character that ends the tag. -/
def isSeparator (c : Char) : Bool := c == '/' || c == '='

/-- The part of the name before the first separator; the whole name if there is none. -/
def tag (t : Token) : String := String.ofList (t.name.toList.takeWhile (!isSeparator ·))

/-- The part of the name after the first separator. -/
def subvalue? (t : Token) : Option String :=
  match t.name.toList.dropWhile (!isSeparator ·) with
  | [] => none
  | _ :: rest => some (String.ofList rest)

/-- The token's tag is `tag` up to case. -/
def hasTag (t : Token) (tag : String) : Bool := Text.eqIgnoreCase t.tag tag

/-- The token answers a question for `name`: by its name or by its tag. -/
def answers (t : Token) (name : String) : Bool := t.is name || t.hasTag name

/-- The name and the arguments, with spaces between. -/
def render (t : Token) : String := " ".intercalate (t.name :: t.args)

/-- The token with all its parts, for diagnostics. -/
def detail (t : Token) : String :=
  "ExtensionToken \x7b value: " ++ Text.quoted t.name ++ ", arguments: ["
    ++ ", ".intercalate (t.args.map Text.quoted) ++ "], well_known: " ++ toString t.wellKnown
    ++ " \x7d"

end Token

end MailProtocol
