import MailProtocol.Config.Basic
import MailProtocol.Grammar
import MailProtocol.Line
import MailProtocol.Segments
import MailProtocol.Text.Utf8

/-!
# POP3 commands

A command is a verb and arguments on one line. Passwords may hold spaces, so `PASS` has one
argument that reaches to the end of the line.
-/

namespace MailProtocol.Pop3

/-- A command, from client to server. -/
structure Command where
  verb : Bytes
  args : List Bytes := []
deriving DecidableEq, Repr

namespace Command

/-- The verb is `verb` up to case. -/
def isVerb (c : Command) (verb : String) : Bool := Bytes.eqIgnoreCase c.verb (Utf8.encode verb)

/-- A positive answer to the command brings a body of several lines. The listings do so only
without an argument. -/
def expectsMultiline (c : Command) : Bool :=
  if c.isVerb "LIST" || c.isVerb "UIDL" then c.args.isEmpty
  else c.isVerb "RETR" || c.isVerb "TOP" || c.isVerb "CAPA"

/-- A command on the wire. -/
def write (c : Command) : Segments :=
  .ofBytes (c.verb ++ c.args.flatMap (Byte.space :: ·) ++ Bytes.crlf)

/-- The arguments of a verb that follow it on its line. -/
def argsOf (verb rest : Bytes) : List Bytes :=
  if Command.isVerb { verb } "PASS" then (if rest.isEmpty then [] else [rest])
  else rest.fields Byte.space

/-- Read a command. -/
def parse (s : Bytes) : Except Malformed (Parsed Command) :=
  match Line.first s with
  | .error fault => .error { fault }
  | .ok (line, rest) =>
    let (verb, after) := line.splitWord
    if verb.isEmpty then .error { fault := .emptyCommand }
    else .ok (.complete { verb, args := argsOf verb after } rest)

/-- How servers read commands. -/
def grammar (config : Config) : Grammar Unit Command where
  parse _ s := ((), parse s)
  maxLineLength := config.limits.maxLineLength

theorem suffix_of_parse {s rest : Bytes} {c : Command} (h : parse s = .ok (.complete c rest)) :
    rest <:+ s ∧ rest.length < s.length := by
  unfold parse at h
  split at h
  · simp at h
  · next hl =>
    simp only at h
    split at h
    · simp at h
    · simp only [Except.ok.injEq, Parsed.complete.injEq] at h
      exact h.2 ▸ Line.suffix_of_first hl

/-- Reading a command uses up its line and nothing else. -/
theorem lawful_grammar (config : Config) : (grammar config).Lawful where
  suffix h := (suffix_of_parse (Prod.mk.inj h).2).1
  length_lt h := (suffix_of_parse (Prod.mk.inj h).2).2

end Command

end MailProtocol.Pop3
