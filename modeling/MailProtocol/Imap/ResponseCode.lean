import MailProtocol.Token.Registry

/-!
# IMAP response codes

The bracketed words at the start of a status text. Unknown codes are no error: they become fresh
tokens, and their arguments are kept as items.
-/

namespace MailProtocol.Imap.ResponseCode

/-- The code that carries a server's capabilities. -/
def capability : Token := .known "CAPABILITY"

/-- The codes that are known beforehand. -/
def registry : Registry where
  name := "IMAP response code"
  names := [
    "ALERT", "BADCHARSET", "CAPABILITY", "PARSE", "PERMANENTFLAGS", "READ-ONLY", "READ-WRITE",
    "TRYCREATE", "UIDNEXT", "UIDVALIDITY", "UNSEEN", "REFERRAL", "UNKNOWN-CTE", "APPENDUID",
    "COPYUID", "UIDNOTSTICKY", "HIGHESTMODSEQ", "NOMODSEQ", "MODIFIED", "COMPRESSIONACTIVE",
    "NOTSAVED", "BADCOMPARATOR", "METADATA", "UNDEFINED-FILTER", "UNAVAILABLE",
    "AUTHENTICATIONFAILED", "AUTHORIZATIONFAILED", "EXPIRED", "PRIVACYREQUIRED", "CONTACTADMIN",
    "NOPERM", "INUSE", "EXPUNGEISSUED", "CORRUPTION", "SERVERBUG", "CLIENTBUG", "CANNOT", "LIMIT",
    "OVERQUOTA", "ALREADYEXISTS", "NONEXISTENT", "USEATTR", "CLOSED"]

/-- The code of a name. -/
def ofName (name : String) : Token := registry.lookupOrCreate name

end MailProtocol.Imap.ResponseCode
