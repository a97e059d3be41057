import MailProtocol.Imap.Item.Writer
import MailProtocol.Imap.Response.Basic

/-!
# Writing responses

A server writes each response as one segment: its literals are sent without waiting.
-/

namespace MailProtocol.Imap

/-- The code in brackets, after a space. -/
def Code.write (c : Code) : Segments :=
  .ofBytes (Byte.space :: Byte.openBracket :: Utf8.encode c.token.name)
    ++ Item.writeMore .inline c.args ++ .ofBytes [Byte.closeBracket]

/-- A status: its condition, its code and its text. -/
def Status.write (s : Status) : Segments :=
  .ofBytes s.condition.word ++ (s.text.code.map Code.write).getD .empty
    ++ (if s.text.text.isEmpty then .empty else .ofBytes (Byte.space :: s.text.text))

namespace Response

/-- What begins an untagged response. -/
def untaggedMark : Bytes := [Byte.star, Byte.space]

/-- What begins a request to continue. -/
def continuationMark : Bytes := [Byte.plus, Byte.space]

/-- A response without its line end. -/
def writeContent : Response → Segments
  | tagged tag status => .ofBytes (tag ++ [Byte.space]) ++ status.write
  | untagged status => .ofBytes untaggedMark ++ status.write
  | data items => .ofBytes untaggedMark ++ Item.writeAll .inline items
  | continuation text => .ofBytes (continuationMark ++ text)

/-- A response on the wire. -/
def write (r : Response) : Segments := r.writeContent ++ .ofBytes Bytes.crlf

end Response

end MailProtocol.Imap
