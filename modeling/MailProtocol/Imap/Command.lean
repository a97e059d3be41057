import MailProtocol.Config.Basic
import MailProtocol.Imap.Item.Parser
import MailProtocol.Imap.Item.Writer
import MailProtocol.Imap.Tag
import MailProtocol.Line
import MailProtocol.Text.Utf8

/-!
# IMAP commands

A command is a tag, a verb and arguments, on one logical line; a verb may come with the prefix
`UID`. Clients write commands (`Command.write`), servers read them (`Command.grammar`).

If a server refuses a command, the client still sends the literals that it announced without
waiting, and the server skips these. Literals that the client would wait for are not sent any more.
-/

namespace MailProtocol.Imap

/-- A command, from client to server. -/
structure Command where
  tag : Bytes
  verb : Bytes
  /-- The verb came with `UID` before it. -/
  uid : Bool := false
  args : List Item := []
  /-- The client waits at least once to be asked for a literal. -/
  continuation : Bool := false
deriving DecidableEq

namespace Command

/-- The command with one more argument. -/
def arg (c : Command) (x : Item) : Command :=
  { c with args := c.args ++ [x], continuation := c.continuation || x.hasLiteral }

/-- The verb is `verb` up to case. -/
def isVerb (c : Command) (verb : String) : Bool := Bytes.eqIgnoreCase c.verb (Utf8.encode verb)

/-! ## Writing -/

/-- The word that goes before a verb that works on unique identifiers. -/
def uidWord : Bytes := Bytes.ascii "UID"

/-- A command on the wire. -/
def writeWith (mode : LiteralMode) (c : Command) : Segments :=
  .ofBytes (c.tag ++ [Byte.space] ++ (if c.uid then uidWord ++ [Byte.space] else []) ++ c.verb)
    ++ Item.writeMore mode c.args ++ .ofBytes Bytes.crlf

/-- How a client writes its commands. -/
structure Writer where
  /-- Literals are sent without waiting. -/
  literalPlus : Bool := false
deriving DecidableEq, Repr

/-- The mode in which a client's literals go. -/
def Writer.mode (w : Writer) : LiteralMode :=
  if w.literalPlus then .nonSynchronising else .synchronising

/-- A command on the wire, as the client writes it. -/
def write (w : Writer) (c : Command) : Segments := c.writeWith w.mode

/-! ## Reading -/

/-- Read the verb and the arguments of a command. -/
def parseVerb (maxLiteral : Nat) (tag : Bytes) (uid : Bool) (s : Bytes) :
    Except Malformed (Parsed Command) :=
  let wrong (fault : Fault) : Except Malformed (Parsed Command) := .error { fault, tag := some tag }
  let verb := Line.word s
  if verb.isEmpty then wrong .missingCommand
  else match Line.afterWord s with
    | Byte.cr :: Byte.lf :: rest => .ok (.complete { tag, verb, uid } rest)
    | Byte.space :: s =>
      match Item.parse maxLiteral s with
      | .error fault => wrong fault
      | .ok (.incomplete needs) => .ok (.incomplete needs)
      | .ok (.complete args waits rest) =>
        .ok (.complete { tag, verb, uid, args, continuation := 0 < waits } rest)
    | _ => wrong .invalidCommandLine

/-- Read a command. -/
def parse (maxLiteral : Nat) (s : Bytes) : Except Malformed (Parsed Command) :=
  let tag := Line.word s
  if tag.isEmpty then .error { fault := .missingTag }
  else if !tag.all Tag.isTagByte then .error { fault := .invalidTag }
  else match Line.afterWord s with
    | Byte.space :: s =>
      if Bytes.eqIgnoreCase (Line.word s) uidWord then
        match Line.afterWord s with
        | Byte.space :: s => parseVerb maxLiteral tag true s
        | _ => .error { fault := .uidWithoutCommand, tag := some tag }
      else parseVerb maxLiteral tag false s
    | _ => .error { fault := .missingCommand, tag := some tag }

/-- How servers read commands. -/
def grammar (config : Config) : Grammar Unit Command where
  parse _ s := ((), parse config.limits.maxLiteralLength s)
  maxLineLength := config.limits.maxLineLength
  literalToDiscard _ line := do
    let marker ← LiteralMarker.atEnd? line
    if marker.synchronising then none else some marker.length
  continuationRequest :=
    some (Bytes.ascii "+ " ++ Utf8.encode config.imap.continuationPrompt ++ Bytes.crlf)

theorem suffix_of_parseVerb {maxLiteral : Nat} {tag : Bytes} {uid : Bool} {s rest : Bytes}
    {c : Command} (h : parseVerb maxLiteral tag uid s = .ok (.complete c rest)) :
    rest <:+ s ∧ rest.length < s.length := by
  unfold parseVerb at h
  simp only at h
  split at h
  · simp at h
  · split at h
    · next hw =>
      simp only [Except.ok.injEq, Parsed.complete.injEq] at h
      have hs := h.2 ▸ Line.suffix_of_afterWord hw
      have := hs.length_le
      refine ⟨(List.suffix_cons _ _).trans hs, ?_⟩
      simp at this
      omega
    · next hw =>
      have hs := Line.suffix_of_afterWord hw
      split at h
      · simp at h
      · simp at h
      · next hp =>
        simp only [Except.ok.injEq, Parsed.complete.injEq] at h
        obtain ⟨h1, h2⟩ := suffix_of_run hp
        have := hs.length_le
        exact h.2 ▸ ⟨h1.trans hs, by omega⟩
    · simp at h

theorem suffix_of_parse {maxLiteral : Nat} {s rest : Bytes} {c : Command}
    (h : parse maxLiteral s = .ok (.complete c rest)) :
    rest <:+ s ∧ rest.length < s.length := by
  unfold parse at h
  simp only at h
  split at h
  · simp at h
  · split at h
    · simp at h
    · split at h
      · next hw =>
        have hs := Line.suffix_of_afterWord hw
        have hle := hs.length_le
        split at h
        · split at h
          · next hw' =>
            have hs' := Line.suffix_of_afterWord hw'
            have hle' := hs'.length_le
            obtain ⟨h1, h2⟩ := suffix_of_parseVerb h
            exact ⟨(h1.trans hs').trans hs, by omega⟩
          · simp at h
        · obtain ⟨h1, h2⟩ := suffix_of_parseVerb h
          exact ⟨h1.trans hs, by omega⟩
      · simp at h

/-- Reading a command uses up at least one byte of the front and nothing else. -/
theorem lawful_grammar (config : Config) : (grammar config).Lawful where
  suffix h := (suffix_of_parse (Prod.mk.inj h).2).1
  length_lt h := (suffix_of_parse (Prod.mk.inj h).2).2

end Command

end MailProtocol.Imap
