import MailProtocol.Digest.Md5
import MailProtocol.Pop3.Command

/-!
# Authentication by digest

A server that supports it greets with a timestamp in angle brackets. The client answers with the
digest of the timestamp and the secret that both know, so the secret itself is not sent.
-/

namespace MailProtocol.Pop3.Apop

/-- The proof that one knows the secret. -/
def digest (timestamp secret : Bytes) : Bytes := Md5.hex (Md5.digest (timestamp ++ secret))

/-- The timestamp in a greeting, its brackets included; `none` if the server offers none. -/
def timestamp? (greeting : Bytes) : Except Malformed (Option Bytes) :=
  match greeting.dropWhile (· != Byte.less) with
  | [] => .ok none
  | s =>
    if s.contains Byte.greater then
      .ok (some (s.takeWhile (· != Byte.greater) ++ [Byte.greater]))
    else .error { fault := .unterminatedTimestamp, raw := greeting }

/-- The command that authenticates a user. -/
def command (user timestamp secret : Bytes) : Command where
  verb := Bytes.ascii "APOP"
  args := [user, digest timestamp secret]

end MailProtocol.Pop3.Apop
