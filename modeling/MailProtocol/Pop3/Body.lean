import MailProtocol.Bytes.Basic

/-!
# Bodies of several lines

A body of several lines ends with a line that is a single dot. Lines of the body that begin with a
dot get one more, so no line of the body is taken for its end; the reader takes that dot off.
-/

namespace MailProtocol.Pop3

/-- A line of a body as it is sent. -/
def stuff (line : Bytes) : Bytes := if line.startsWith [Byte.dot] then Byte.dot :: line else line

/-- The line of a body that was sent as `line`. -/
def unstuff : Bytes → Bytes
  | Byte.dot :: line => line
  | line => line

/-- A body ends where a line does. -/
def endsLine (body : Bytes) : Bool := body.isEmpty || body.endsWith [Byte.lf]

/-- A whole body as it is sent, with the line that ends it. Lines end in a line feed, and the last
one gets a line end if it has none. -/
def stuffBody (body : Bytes) : Bytes :=
  [Byte.lf].intercalate ((body.splitOn Byte.lf).map stuff)
    ++ (if endsLine body then [] else Bytes.crlf) ++ Byte.dot :: Bytes.crlf

end MailProtocol.Pop3
