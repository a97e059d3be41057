import MailProtocol.Bytes.Split
import MailProtocol.Text.Utf8
import MailProtocol.Token.Registry

/-!
# POP3 capabilities

A server lists its capabilities line by line, each a name and parameters. A line of `SASL` with
parameters stands for one capability `SASL/<mechanism>` per parameter, so that finding a mechanism
is a question for a token; the parameters of all other names are the arguments of one token.
-/

namespace MailProtocol.Pop3.Capability

/-- The capabilities that are known beforehand. -/
def registry : Registry where
  name := "POP3 capability"
  names := [
    "TOP", "USER", "SASL", "RESP-CODES", "LOGIN-DELAY", "PIPELINING", "EXPIRE", "UIDL",
    "IMPLEMENTATION", "AUTH-RESP-CODE", "STLS", "UTF8", "LANG", "SASL/PLAIN", "SASL/LOGIN",
    "SASL/CRAM-MD5", "SASL/DIGEST-MD5", "SASL/ANONYMOUS", "SASL/EXTERNAL", "SASL/GSSAPI",
    "SASL/NTLM", "SASL/XOAUTH2"]

/-- The capability of a name. -/
def ofName (name : String) : Token := registry.lookupOrCreate name

/-- The capability to authenticate by a mechanism. -/
def sasl (mechanism : String) : Token := ofName ("SASL/" ++ mechanism)

/-- The name whose parameters are mechanisms. -/
def saslWord : Bytes := Bytes.ascii "SASL"

/-- The capabilities of one line, none if it is blank. -/
def ofLine (line : Bytes) : List Token :=
  match line.trimLineEnding.fields Byte.space with
  | [] => []
  | name :: parameters =>
    let args := parameters.map Utf8.readLossy
    if Bytes.eqIgnoreCase name saslWord ∧ args ≠ [] then args.map sasl
    else [(ofName (Utf8.readLossy name)).withArgs args]

/-- The capabilities of the lines of a listing, in order. -/
def ofLines (lines : List Bytes) : List Token := lines.flatMap ofLine

end MailProtocol.Pop3.Capability
