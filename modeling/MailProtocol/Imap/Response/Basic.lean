import MailProtocol.Imap.Capability
import MailProtocol.Imap.ResponseCode

/-!
# IMAP responses

What a server sends: the outcome of a command under the command's tag, untagged statuses, untagged
data, and requests to continue. A status has a condition and a text, which may begin with a response
code in brackets.

`Response.capabilities?` finds the capabilities that a response advertises, in either of the two
forms in which servers do it.
-/

namespace MailProtocol.Imap

/-- The condition of a status. -/
inductive Condition where
  | ok
  | no
  | bad
  | bye
  | preauth
deriving DecidableEq, Repr

namespace Condition

/-- The word for a condition. -/
def name : Condition → String
  | ok => "OK"
  | no => "NO"
  | bad => "BAD"
  | bye => "BYE"
  | preauth => "PREAUTH"

/-- The word on the wire. -/
def word (c : Condition) : Bytes := Bytes.ascii c.name

/-- The condition of a word, in any case. -/
def ofWord? (s : Bytes) : Option Condition :=
  [ok, no, bad, bye, preauth].find? fun c => Bytes.eqIgnoreCase c.word s

end Condition

/-- A response code with its arguments. -/
structure Code where
  token : Token
  args : List Item := []
deriving DecidableEq

/-- The text of a status, and the code in front of it. -/
structure StatusText where
  code : Option Code := none
  text : Bytes := []
deriving DecidableEq

/-- A status. -/
structure Status where
  condition : Condition
  text : StatusText
deriving DecidableEq

/-- A response, from server to client. -/
inductive Response where
  /-- The outcome of the command with this tag. -/
  | tagged (tag : Bytes) (status : Status)
  | untagged (status : Status)
  /-- Any other untagged response. -/
  | data (items : List Item)
  /-- A request to continue. -/
  | continuation (text : Bytes)
deriving DecidableEq

namespace Response

/-- The status, if there is one. -/
def status? : Response → Option Status
  | tagged _ status | untagged status => some status
  | data _ | continuation _ => none

/-- The response is the outcome of the command with this tag. -/
def isTaggedWith (r : Response) (expected : Bytes) : Bool :=
  match r with
  | tagged tag _ => tag == expected
  | _ => false

/-- The word that begins data that list capabilities. -/
def capabilityWord : Bytes := Bytes.ascii "CAPABILITY"

/-- The capabilities that the response lists, as data or in a code. -/
def capabilities? : Response → Option (List Token)
  | data (.atom name :: items) =>
    if Bytes.eqIgnoreCase name capabilityWord then some (Capability.ofItems items) else none
  | data _ | continuation _ => none
  | tagged _ status | untagged status => do
    let code ← status.text.code
    if code.token.same ResponseCode.capability then some (Capability.ofItems code.args) else none

end Response

end MailProtocol.Imap
