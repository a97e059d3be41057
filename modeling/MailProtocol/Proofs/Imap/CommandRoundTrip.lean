import MailProtocol.Proofs.Imap.Heading
import MailProtocol.Proofs.Imap.ItemRoundTrip

/-!
# Written commands are read back

A server reads a command as the client that wrote it meant it (`parse_write_command`), whatever the
client sends next, and whether or not it waits to be asked for its literals. The flag for a wait is
set exactly if the client waits and there is a literal at some depth.
-/

namespace MailProtocol.Imap.Command

/-- The command can be written so that it is read as itself. -/
structure WellFormed (maxLiteral : Nat) (c : Command) : Prop where
  tag : IsTag c.tag
  verb : Line.IsWord c.verb
  /-- Without the prefix, the verb is not taken for it. -/
  prefixed : c.uid = true ∨ Bytes.eqIgnoreCase c.verb uidWord = false
  args : Item.AllWellFormed maxLiteral c.args

/-- What stands before the arguments of a command that is written. -/
def headingText (c : Command) : Bytes :=
  c.tag ++ [Byte.space] ++ (if c.uid then uidWord ++ [Byte.space] else []) ++ c.verb

theorem WellFormed.heading {maxLiteral : Nat} {c : Command} (h : c.WellFormed maxLiteral) :
    Heading c.tag c.uid c.verb c.headingText := by
  unfold headingText
  cases huid : c.uid with
  | false =>
    have hplain := Heading.plain h.tag h.verb (h.prefixed.resolve_left (by simp [huid]))
    simpa using hplain
  | true =>
    have hmark : ∀ b ∈ uidWord, Line.endsWord b = false := by decide +kernel
    have hprefixed := Heading.uid h.tag h.verb hmark (by decide +kernel)
    simpa using hprefixed

theorem concat_write (w : Writer) (c : Command) :
    (c.write w).concat
      = c.headingText ++ ((Item.writeMore w.mode c.args).concat ++ Bytes.crlf) := by
  rw [write, writeWith, Segments.concat_append, Segments.concat_append, Segments.concat_ofBytes,
    Segments.concat_ofBytes, List.append_assoc]
  rfl

/-- The client waits at least once if and only if it has not said that it does not, and has a
literal. -/
theorem waits_pos_iff (w : Writer) (args : List Item) :
    decide (0 < Item.waits w.mode (Item.literalsAll args))
      = (!w.literalPlus && Item.anyLiteral args) := by
  rw [Bool.eq_iff_iff, decide_eq_true_eq, Item.waits_pos, Bool.and_eq_true, Writer.mode]
  cases w.literalPlus <;> simp

/-- A command that has been written is read back, whatever follows it. -/
theorem parse_write_command (config : Config) (w : Writer) {c : Command}
    (h : c.WellFormed config.limits.maxLiteralLength) (t : Bytes) :
    (grammar config).parse () ((c.write w).concat ++ t)
      = ((), .ok (.complete
          { c with continuation := !w.literalPlus && Item.anyLiteral c.args } t)) := by
  show ((), parse _ _) = _
  rw [concat_write, List.append_assoc, List.append_assoc]
  obtain ⟨tag, verb, uid, args, continuation⟩ := c
  cases args with
  | nil =>
    rw [Item.writeMore, Segments.concat_empty, List.nil_append, parse_heading_crlf h.heading]
    simp [Item.anyLiteral]
  | cons x xs =>
    rw [concat_writeMore_cons, List.cons_append, parse_heading_space h.heading,
      parse_writeAll h.args, ofScan, waits_pos_iff]

/-- A command with a section, nested lists, a literal that holds a line end and a quoted string with
escapes, in front of something else. -/
theorem parse_write_command_fetch :
    let fetch : Command := {
      tag := Bytes.ascii "a1", verb := Bytes.ascii "FETCH", uid := true
      args := [.atom (Bytes.ascii "1:*"), .quoted (Bytes.ascii "a\"\\b"),
        .list [.atom (Bytes.ascii "BODY[HEADER.FIELDS (TO)]"), .nil,
          .list [.literal (Bytes.ascii "x)\r\n") true, .literal [] false]]] }
    fetch.WellFormed ({} : Config).limits.maxLiteralLength
      ∧ (grammar {}).parse () ((fetch.write { literalPlus := false }).concat ++ Bytes.ascii ")\r\n")
        = ((), .ok (.complete { fetch with continuation := true } (Bytes.ascii ")\r\n"))) := by
  intro fetch
  have hnumbers : AtomText (Bytes.ascii "1:*") := atomText_of_readAtom (by decide)
  have hbody : AtomText (Bytes.ascii "BODY[HEADER.FIELDS (TO)]") :=
    atomText_of_readAtom (by decide)
  have hfetch : fetch.WellFormed ({} : Config).limits.maxLiteralLength := by
    refine ⟨⟨by decide, by decide +kernel⟩, ⟨by decide, by decide +kernel⟩, .inl rfl, ?_⟩
    refine ⟨⟨by decide, hnumbers, by decide +kernel⟩, ?_, ⟨?_, ?_, ?_, trivial⟩, trivial⟩
    · show ∀ b ∈ Bytes.ascii "a\"\\b", b ≠ Byte.cr ∧ b ≠ Byte.lf
      decide +kernel
    · exact ⟨by decide, hbody, by decide +kernel⟩
    · trivial
    · exact ⟨⟨by decide, by decide⟩, ⟨by decide, by decide⟩, trivial⟩
  exact ⟨hfetch, parse_write_command {} { literalPlus := false } hfetch _⟩

end MailProtocol.Imap.Command
