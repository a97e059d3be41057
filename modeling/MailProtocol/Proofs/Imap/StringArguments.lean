import MailProtocol.Proofs.Imap.CommandRoundTrip

/-!
# Arbitrary strings as arguments

`Item.astring` and `Item.string` choose by the bytes of a string whether it is sent as an atom,
between quotes or as a literal. The reader has its own idea of what ends an atom, of what is escaped
between quotes and of what means `NIL`. The two agree for every string (`Item.wellFormed_astring`,
`Item.wellFormed_string`), so nothing that is put into a command can leave its argument: the server
finds the same arguments with the same bytes in them, in lists of any depth, and nothing else
(`Command.exists_parse_write_strings`).
-/

namespace MailProtocol

theorem Bytes.eqIgnoreCase_comm (s t : Bytes) : eqIgnoreCase s t = eqIgnoreCase t s :=
  BEq.comm

namespace Imap

/-! ## The form that carries a string -/

namespace Item

/-- The bytes that `astring` writes without quotes go on in an atom, and open no section in it. -/
theorem endsAtom_of_isConservative {b : UInt8} (h : isConservative b = true) :
    endsAtom b = false ∧ b ≠ Byte.openBracket := by
  have hbarred : ∀ c ∈ [Byte.space, Byte.cr, Byte.lf, Byte.openParen, Byte.closeParen, Byte.quote,
      Byte.openBrace, Byte.openBracket], isConservative c = false := by decide +kernel
  have hne : ∀ c, isConservative c = false → b ≠ c := by
    intro c hc heq
    rw [heq, hc] at h
    exact Bool.false_ne_true h
  refine ⟨?_, hne _ (hbarred _ (by decide))⟩
  rw [Bool.eq_false_iff]
  intro hends
  simp only [endsAtom, Bool.or_eq_true, beq_iff_eq] at hends
  rcases hends with (((((hb | hb) | hb) | hb) | hb) | hb) | hb <;>
    exact hne _ (hbarred _ (by decide)) hb

theorem atomText_of_isConservative {s : Bytes} (h : ∀ b ∈ s, isConservative b = true) :
    AtomText s := by
  induction s with
  | nil => exact .nil
  | cons b s ih =>
    obtain ⟨hb, hs⟩ := List.forall_mem_cons.1 h
    obtain ⟨hends, hopen⟩ := endsAtom_of_isConservative hb
    exact .byte hends hopen (ih hs)

/-- A string that is written between quotes stays on its line. -/
theorem ne_lineEnd_of_isQuotable {s : Bytes} (h : isQuotable s = true) :
    ∀ b ∈ s, b ≠ Byte.cr ∧ b ≠ Byte.lf := by
  intro b hb
  rw [isQuotable, Bool.and_eq_true, List.all_eq_true] at h
  have hprintable : Byte.isPrintable b = true := by
    have hbyte := h.2 b hb
    rw [Bool.and_eq_true, Bool.and_eq_true] at hbyte
    exact hbyte.1.1
  constructor <;>
  · intro heq
    rw [heq] at hprintable
    exact absurd hprintable (by decide)

variable {maxLiteral : Nat} {s : Bytes}

/-- A string that is short enough for a literal is read back. -/
theorem wellFormed_string (hfit : s.length ≤ maxLiteral) (hlimit : s.length < Decimal.limit) :
    (string s).WellFormed maxLiteral := by
  unfold string
  split
  · next hquotable => exact ne_lineEnd_of_isQuotable hquotable
  · exact ⟨hfit, hlimit⟩

theorem wellFormed_astring (hfit : s.length ≤ maxLiteral) (hlimit : s.length < Decimal.limit) :
    (astring s).WellFormed maxLiteral := by
  unfold astring
  split
  · next hatom =>
    rw [isConservativeAtom, Bool.and_eq_true, Bool.and_eq_true, Bool.not_eq_true',
      Bool.not_eq_true', List.isEmpty_eq_false_iff, List.all_eq_true] at hatom
    obtain ⟨⟨hnil, hne⟩, hbytes⟩ := hatom
    exact ⟨hne, atomText_of_isConservative hbytes, (Bytes.eqIgnoreCase_comm _ _).trans hnil⟩
  · exact wellFormed_string hfit hlimit

/-- Whatever its form, the item holds the string. -/
theorem content?_string (s : Bytes) : (string s).content? = some s := by
  unfold string
  split <;> rfl

theorem content?_astring (s : Bytes) : (astring s).content? = some s := by
  unfold astring
  split
  · rfl
  · exact content?_string s

end Item

/-! ## Arguments made of strings -/

/-- What a client wants to say by an argument: a string, in whatever form or in any but an atom, or
a list of further arguments. -/
inductive Argument where
  | astring (s : Bytes)
  | string (s : Bytes)
  | list (args : List Argument)

namespace Argument

mutual

/-- The strings in the argument. -/
def strings : Argument → List Bytes
  | astring s | string s => [s]
  | list args => stringsAll args

/-- The strings in the arguments, in order. -/
def stringsAll : List Argument → List Bytes
  | [] => []
  | a :: args => strings a ++ stringsAll args

end

mutual

/-- The item that is sent for the argument. -/
def item : Argument → Item
  | astring s => .astring s
  | string s => .string s
  | list args => .list (items args)

/-- The items that are sent for the arguments. -/
def items : List Argument → List Item
  | [] => []
  | a :: args => item a :: items args

end

mutual

/-- The item says what the argument says: it holds the string, and is neither `NIL` nor a list, or
it is a list of items that say what the arguments in the list say. -/
def HeldBy : Argument → Item → Prop
  | astring s, x | string s, x => x.content? = some s
  | list args, x => ∃ xs, x.items? = some xs ∧ AllHeldBy args xs

/-- There are as many items as arguments, and each says what its argument says. -/
def AllHeldBy : List Argument → List Item → Prop
  | [], xs => xs = []
  | a :: args, xs => ∃ y ys, xs = y :: ys ∧ HeldBy a y ∧ AllHeldBy args ys

end

mutual

theorem heldBy_item : ∀ a : Argument, a.HeldBy a.item
  | astring s => Item.content?_astring s
  | string s => Item.content?_string s
  | list args => ⟨items args, rfl, allHeldBy_items args⟩

theorem allHeldBy_items : ∀ args : List Argument, AllHeldBy args (items args)
  | [] => rfl
  | a :: args => ⟨item a, items args, rfl, heldBy_item a, allHeldBy_items args⟩

end

mutual

/-- The item of an argument is read back, as long as its strings are not too long for a literal. -/
theorem wellFormed_item {maxLiteral : Nat} (hmax : maxLiteral < Decimal.limit) :
    ∀ a : Argument, (∀ s ∈ a.strings, s.length ≤ maxLiteral) → a.item.WellFormed maxLiteral
  | astring s, h =>
    have hfit : s.length ≤ maxLiteral := h s (List.mem_singleton_self s)
    Item.wellFormed_astring hfit (hfit.trans_lt hmax)
  | string s, h =>
    have hfit : s.length ≤ maxLiteral := h s (List.mem_singleton_self s)
    Item.wellFormed_string hfit (hfit.trans_lt hmax)
  | list args, h => allWellFormed_items hmax args h

theorem allWellFormed_items {maxLiteral : Nat} (hmax : maxLiteral < Decimal.limit) :
    ∀ args : List Argument, (∀ s ∈ stringsAll args, s.length ≤ maxLiteral) →
      Item.AllWellFormed maxLiteral (items args)
  | [], _ => trivial
  | a :: args, h => by
    rw [stringsAll, List.forall_mem_append] at h
    exact ⟨wellFormed_item hmax a h.1, allWellFormed_items hmax args h.2⟩

end

end Argument

/-! ## Commands with such arguments -/

namespace Command

/-- Whatever strings are put into a command, a server reads that command and no more than it: the
tag, the verb, and arguments that say the same. The verb must not be the word of the prefix, unless
the prefix itself is there. -/
theorem exists_parse_write_strings (config : Config)
    (hmax : config.limits.maxLiteralLength < Decimal.limit) (w : Writer) {c : Command}
    (htag : IsTag c.tag) (hverb : Line.IsWord c.verb)
    (huid : c.uid = true ∨ Bytes.eqIgnoreCase c.verb uidWord = false) {args : List Argument}
    (hargs : c.args = Argument.items args)
    (hfit : ∀ s ∈ Argument.stringsAll args, s.length ≤ config.limits.maxLiteralLength)
    (t : Bytes) :
    ∃ read : Command, (grammar config).parse () ((c.write w).concat ++ t)
        = ((), .ok (.complete read t))
      ∧ read.tag = c.tag ∧ read.verb = c.verb ∧ read.uid = c.uid
      ∧ Argument.AllHeldBy args read.args := by
  have hitems : Item.AllWellFormed config.limits.maxLiteralLength c.args := by
    rw [hargs]
    exact Argument.allWellFormed_items hmax args hfit
  refine ⟨_, parse_write_command config w ⟨htag, hverb, huid, hitems⟩ t, rfl, rfl, rfl, ?_⟩
  show Argument.AllHeldBy args c.args
  rw [hargs]
  exact Argument.allHeldBy_items args

/-- A mailbox name that tries to be another command, on a line that goes on after it. -/
theorem exists_parse_write_strings_rename :
    let args : List Argument := [.astring (Bytes.ascii "x\r\na2 DELETE y\r\n"),
      .list [.string (Bytes.ascii "NIL"), .astring (Bytes.ascii "nil"), .astring [],
        .list [.string (Bytes.ascii "\x7b3+\x7d\r\n"), .astring (Bytes.ascii "\"\\)\x00")]]]
    let c : Command := {
      tag := Bytes.ascii "a1", verb := Bytes.ascii "RENAME", args := Argument.items args }
    ∃ read : Command, (grammar {}).parse () ((c.write {}).concat ++ Bytes.ascii ")\r\n")
        = ((), .ok (.complete read (Bytes.ascii ")\r\n")))
      ∧ read.tag = c.tag ∧ read.verb = c.verb ∧ read.uid = c.uid
      ∧ Argument.AllHeldBy args read.args := by
  intro args c
  exact exists_parse_write_strings {} (by decide) {} ⟨by decide, by decide +kernel⟩
    ⟨by decide, by decide +kernel⟩ (.inr (by decide +kernel)) rfl (by decide +kernel) _

end Command

end Imap

end MailProtocol
