import MailProtocol.Imap.Item.Basic
import MailProtocol.Text.Utf8
import MailProtocol.Token.Registry

/-!
# IMAP capabilities

The names that clients act on are known beforehand; whatever else a server advertises becomes a
fresh token. A server lists its capabilities as atoms, and other items in such a list are ignored.
-/

namespace MailProtocol.Imap.Capability

/-- The capabilities that are known beforehand. -/
def registry : Registry where
  name := "IMAP capability"
  names := [
    "IMAP4rev1", "IMAP4", "STARTTLS", "LOGINDISABLED", "LITERAL+", "LITERAL-", "IDLE", "ID",
    "NAMESPACE", "CHILDREN", "QUOTA", "MAILBOX-REFERRALS", "LOGIN-REFERRALS", "MULTIAPPEND",
    "BINARY", "UNSELECT", "ACL", "UIDPLUS", "URLAUTH", "CATENATE", "CONDSTORE", "ESEARCH",
    "SASL-IR", "COMPRESS=DEFLATE", "WITHIN", "ENABLE", "QRESYNC", "SEARCHRES", "I18NLEVEL=1",
    "I18NLEVEL=2", "LANGUAGE", "SORT", "THREAD=ORDEREDSUBJECT", "THREAD=REFERENCES",
    "LIST-EXTENDED", "CONVERT", "CONTEXT=SEARCH", "CONTEXT=SORT", "ESORT", "METADATA",
    "METADATA-SERVER", "NOTIFY", "FILTERS", "UTF8=ACCEPT", "UTF8=ALL", "UTF8=APPEND", "UTF8=ONLY",
    "UTF8=USER", "LIST-STATUS", "MOVE", "SPECIAL-USE", "APPENDLIMIT", "XLIST", "X-GM-EXT-1",
    "AUTH=PLAIN", "AUTH=LOGIN", "AUTH=CRAM-MD5", "AUTH=DIGEST-MD5", "AUTH=ANONYMOUS",
    "AUTH=EXTERNAL", "AUTH=GSSAPI", "AUTH=XOAUTH2"]

/-- The capability of a name. -/
def ofName (name : String) : Token := registry.lookupOrCreate name

/-- The capability to authenticate by a mechanism. -/
def auth (mechanism : String) : Token := ofName ("AUTH=" ++ mechanism)

/-- The capability that an item names. -/
def ofItem? : Item → Option Token
  | .atom name => some (ofName (Utf8.readLossy name))
  | _ => none

/-- The capabilities that items name, in order and with their duplicates. -/
def ofItems (items : List Item) : List Token := items.filterMap ofItem?

end MailProtocol.Imap.Capability
