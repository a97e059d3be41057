import MailProtocol.Proofs.Imap.CommandRoundTrip
import MailProtocol.Proofs.Imap.Incremental

/-!
# What is read is well-formed

A server reads well-formed commands only (`Command.wellFormed_of_parse`), so the commands that are
read back as they were meant are just the well-formed ones. In whatever odd spelling a command came,
it can be passed on: written again, it is read as the same command (`Command.parse_write_of_parse`).
-/

namespace MailProtocol.Imap

/-- Between quotes no line end can be meant. -/
theorem QuotedText.ne_lineEnd {text content : Bytes} (h : QuotedText text content) :
    ∀ b ∈ content, b ≠ Byte.cr ∧ b ≠ Byte.lf := by
  induction h with
  | nil => exact List.forall_mem_nil _
  | plain hline _ _ ih => exact List.forall_mem_cons.2 ⟨hline, ih⟩
  | escaped hb _ ih =>
    refine List.forall_mem_cons.2 ⟨?_, ih⟩
    rcases hb with rfl | rfl <;> decide

/-- What is spelled out is well-formed. -/
theorem Lexeme.Spells.wellFormed {maxLiteral : Nat} {x : Item} {waited : Bool} {text : Bytes}
    {next : Option UInt8} (h : (Lexeme.item x waited).Spells maxLiteral text next) :
    x.WellFormed maxLiteral := by
  cases h with
  | quoted h => exact h.ne_lineEnd
  | @literal _ m _ data htext hfit hdata =>
    obtain ⟨tail, @⟨digits, hread⟩, -⟩ := htext
    exact ⟨hdata ▸ hfit, hdata ▸ (Decimal.read?_eq_some_iff.1 hread).2.2.2⟩
  | @atom _ _ h hne =>
    rw [Item.ofWord]
    split
    · trivial
    · next hnil => exact ⟨hne, h, by simpa using hnil⟩

theorem Item.allWellFormed_iff_forall {maxLiteral : Nat} {xs : List Item} :
    AllWellFormed maxLiteral xs ↔ ∀ x ∈ xs, x.WellFormed maxLiteral := by
  induction xs with
  | nil => simp [AllWellFormed]
  | cons x xs ih => rw [AllWellFormed, List.forall_mem_cons, ih]

namespace Nest

variable {maxLiteral : Nat} {nest : Nest}

/-- The items that have been read are well-formed. -/
structure WellFormed (maxLiteral : Nat) (nest : Nest) : Prop where
  inner : ∀ x ∈ nest.inner, x.WellFormed maxLiteral
  outer : ∀ xs ∈ nest.outer, ∀ x ∈ xs, x.WellFormed maxLiteral

theorem wellFormed_empty : Nest.empty.WellFormed maxLiteral :=
  ⟨List.forall_mem_nil _, List.forall_mem_nil _⟩

theorem WellFormed.push (h : nest.WellFormed maxLiteral) {x : Item} (hx : x.WellFormed maxLiteral) :
    (nest.push x).WellFormed maxLiteral :=
  ⟨List.forall_mem_cons.2 ⟨hx, h.inner⟩, h.outer⟩

theorem WellFormed.openList (h : nest.WellFormed maxLiteral) :
    nest.openList.WellFormed maxLiteral :=
  ⟨List.forall_mem_nil _, List.forall_mem_cons.2 ⟨h.inner, h.outer⟩⟩

theorem WellFormed.closeList? (h : nest.WellFormed maxLiteral) {next : Nest}
    (hclose : nest.closeList? = some next) : next.WellFormed maxLiteral := by
  obtain ⟨inner, outer⟩ := nest
  cases outer with
  | nil => cases hclose
  | cons around outer =>
    obtain rfl := Option.some.inj hclose
    obtain ⟨haround, houter⟩ := List.forall_mem_cons.1 h.outer
    refine ⟨List.forall_mem_cons.2 ⟨?_, haround⟩, houter⟩
    exact Item.allWellFormed_iff_forall.2 fun x hx => h.inner x (List.mem_reverse.1 hx)

theorem WellFormed.items? (h : nest.WellFormed maxLiteral) {items : List Item}
    (hitems : nest.items? = some items) : Item.AllWellFormed maxLiteral items := by
  rw [Nest.items?] at hitems
  split at hitems
  · obtain rfl := Option.some.inj hitems
    exact Item.allWellFormed_iff_forall.2 fun x hx => h.inner x (List.mem_reverse.1 hx)
  · cases hitems

end Nest

/-- The items of a line that has been read are well-formed. -/
theorem Scan.wellFormed_of_run {maxLiteral : Nat} {nest : Nest} {waits waits' : Nat}
    {s rest : Bytes} {items : List Item} (hnest : nest.WellFormed maxLiteral)
    (h : run maxLiteral nest waits s = .ok (.complete items waits' rest)) :
    Item.AllWellFormed maxLiteral items := by
  fun_induction run maxLiteral nest waits s with
  | case1 | case2 | case3 | case5 | case8 => simp at h
  | case4 nest waits b s left hfirst _ ih => exact ih hnest h
  | case6 nest waits b s left hfirst items' hitems =>
    obtain ⟨rfl, -, -⟩ := by simpa only [Except.ok.injEq, Scan.complete.injEq] using h
    exact hnest.items? hitems
  | case7 nest waits b s left hfirst _ ih => exact ih hnest.openList h
  | case9 nest waits b s left hfirst next hclose _ ih => exact ih (hnest.closeList? hclose) h
  | case10 nest waits b s left x waited hfirst _ ih =>
    obtain ⟨text, -, hspells⟩ := Lexeme.first_eq_found_iff.1 hfirst
    exact ih (hnest.push hspells.wellFormed) h

namespace Command

/-- A command that has been read is well-formed. -/
theorem wellFormed_of_parse {maxLiteral : Nat} {s rest : Bytes} {c : Command}
    (h : parse maxLiteral s = .ok (.complete c rest)) : c.WellFormed maxLiteral := by
  obtain ⟨tag, uid, verb, text, after, hheading, hfollows, rfl⟩ := heading_of_parse h
  have hwell {args : List Item} (hargs : Item.AllWellFormed maxLiteral args) (continuation : Bool) :
      WellFormed maxLiteral { tag, verb, uid, args, continuation } := by
    cases hheading with
    | plain htag hverb huid => exact ⟨htag, hverb, .inr huid, hargs⟩
    | uid htag hverb => exact ⟨htag, hverb, .inl rfl, hargs⟩
  cases hfollows with
  | crlf rest' =>
    rw [parse_heading_crlf hheading] at h
    obtain ⟨rfl, -⟩ := by simpa only [Except.ok.injEq, Parsed.complete.injEq] using h
    have hargs : Item.AllWellFormed maxLiteral [] := trivial
    exact hwell hargs false
  | space args =>
    rw [parse_heading_space hheading] at h
    obtain ⟨items, waits, hitems, rfl⟩ := of_ofScan_eq_complete h
    exact hwell (Scan.wellFormed_of_run Nest.wellFormed_empty hitems) _

/-- Arguments that are written behind a heading are read as these arguments. -/
theorem parse_heading_writeMore {maxLiteral : Nat} {tag verb text : Bytes} {uid : Bool}
    (h : Heading tag uid verb text) {args : List Item}
    (hargs : Item.AllWellFormed maxLiteral args) (mode : LiteralMode) (t : Bytes) :
    parse maxLiteral (text ++ ((Item.writeMore mode args).concat ++ (Bytes.crlf ++ t)))
      = .ok (.complete
          { tag, verb, uid, args
            continuation := 0 < Item.waits mode (Item.literalsAll args) } t) := by
  cases args with
  | nil =>
    rw [Item.writeMore, Segments.concat_empty, List.nil_append, parse_heading_crlf h]
    simp [Item.literalsAll, Item.waits]
  | cons x xs =>
    rw [concat_writeMore_cons, List.cons_append, parse_heading_space h, parse_writeAll hargs,
      ofScan]

/-- A command that has been read is read again when it is written, in either way of sending
literals and whatever follows it. Only the flag for a wait tells how it was written last. -/
theorem parse_write_of_parse (config : Config) (w : Writer) {s rest : Bytes} {c : Command}
    (h : (grammar config).parse () s = ((), .ok (.complete c rest))) (t : Bytes) :
    (grammar config).parse () ((c.write w).concat ++ t)
      = ((), .ok (.complete
          { c with continuation := !w.literalPlus && Item.anyLiteral c.args } t)) := by
  have hwell : c.WellFormed config.limits.maxLiteralLength := wellFormed_of_parse (Prod.mk.inj h).2
  show ((), parse _ _) = _
  rw [concat_write, List.append_assoc, List.append_assoc,
    parse_heading_writeMore hwell.heading hwell.args, waits_pos_iff]

/-- The verb is the prefix once more, items stand against each other, a quote and a backslash are
escaped, an atom begins with a tilde, and a literal within a list was sent without waiting. -/
theorem parse_write_of_parse_glued :
    let c : Command := {
      tag := Bytes.ascii "a", verb := Bytes.ascii "UID", uid := true
      args := [.atom (Bytes.ascii "x"), .quoted (Bytes.ascii "q\"\\"),
        .list [.nil, .literal (Bytes.ascii ")") true], .atom (Bytes.ascii "~[s ]~")] }
    let s := Bytes.ascii "a uid UID x\"q\\\"\\\\\"(nil ~\x7b1+\x7d\r\n)) ~[s ]~\r\n"
    (grammar {}).parse () s = ((), .ok (.complete c []))
      ∧ (grammar {}).parse () ((c.write { literalPlus := false }).concat ++ s)
        = ((), .ok (.complete { c with continuation := true } s)) := by
  intro c s
  have hparse : (grammar {}).parse () s = ((), .ok (.complete c [])) := by decide +kernel
  exact ⟨hparse, parse_write_of_parse {} { literalPlus := false } hparse s⟩

end Command

end MailProtocol.Imap
