import MailProtocol.Token.Registry

/-!
# POP3 response codes

The bracketed words at the start of a status text. Codes are hierarchical, and the tag of a code
(`SYS` of `SYS/TEMP`) is its top level.
-/

namespace MailProtocol.Pop3.ResponseCode

/-- The codes that are known beforehand. -/
def registry : Registry where
  name := "POP3 response code"
  names := ["LOGIN-DELAY", "IN-USE", "SYS/TEMP", "SYS/PERM", "AUTH", "UTF8"]

/-- The code of a name. -/
def ofName (name : String) : Token := registry.lookupOrCreate name

end MailProtocol.Pop3.ResponseCode
