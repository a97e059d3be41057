import MailProtocol.Imap.Item.Writer
import MailProtocol.Proofs.Imap.Scan

/-!
# Written items are read back

`run_write` says that an item as it is written is read as that item, in any nest and in front of
anything that may stand behind an item (`Follows`). The items that can be written so are the
well-formed ones (`Item.WellFormed`), nested to any depth, and literals may be sent in any of the
three modes. Items that stand in a row are read back one by one (`run_writeAll`).
-/

namespace MailProtocol

namespace Imap

/-! ## Items that can be written -/

namespace Item

mutual

/-- The item can be written so that it is read as itself: its atoms are such, its quoted strings
have no line ends, and its literals are not too long. -/
def WellFormed (maxLiteral : Nat) : Item → Prop
  | atom s => s ≠ [] ∧ AtomText s ∧ Bytes.eqIgnoreCase s (Bytes.ascii "NIL") = false
  | quoted s => ∀ b ∈ s, b ≠ Byte.cr ∧ b ≠ Byte.lf
  | literal s _ => s.length ≤ maxLiteral ∧ s.length < Decimal.limit
  | nil => True
  | list items => AllWellFormed maxLiteral items

/-- All the items can be written. -/
def AllWellFormed (maxLiteral : Nat) : List Item → Prop
  | [] => True
  | x :: xs => WellFormed maxLiteral x ∧ AllWellFormed maxLiteral xs

end

/-- How many of these literals are announced as if their sender waited to be asked. A server does
not say that it does not wait, and is not asked either. -/
def waits (mode : LiteralMode) (literals : List Bytes) : Nat :=
  if mode = .nonSynchronising then 0 else literals.length

theorem waits_append (mode : LiteralMode) (xs ys : List Bytes) :
    waits mode (xs ++ ys) = waits mode xs + waits mode ys := by
  unfold waits
  split <;> simp

mutual

theorem hasLiteral_iff : ∀ x : Item, x.hasLiteral = true ↔ x.literals ≠ []
  | atom s | quoted s => by simp [hasLiteral, literals]
  | literal s b => by simp [hasLiteral, literals]
  | nil => by simp [hasLiteral, literals]
  | list items => by
    rw [hasLiteral, literals]
    exact anyLiteral_iff items

theorem anyLiteral_iff : ∀ xs : List Item, anyLiteral xs = true ↔ literalsAll xs ≠ []
  | [] => by simp [anyLiteral, literalsAll]
  | x :: xs => by
    rw [anyLiteral, literalsAll, Bool.or_eq_true, hasLiteral_iff x, anyLiteral_iff xs, ne_eq, ne_eq,
      ne_eq, List.append_eq_nil_iff, not_and_or]

end

theorem waits_pos (mode : LiteralMode) (xs : List Item) :
    (0 < waits mode (literalsAll xs)) ↔ mode ≠ .nonSynchronising ∧ anyLiteral xs = true := by
  rw [anyLiteral_iff, waits]
  split <;> simp_all [List.length_pos_iff]

end Item

/-! ## How items are spelled -/

/-- What is read as an atom as a whole is the text of one. -/
theorem atomText_of_readAtom {s : Bytes} (h : readAtom false [] s = some (s, [])) : AtomText s := by
  obtain ⟨text, hs, -, -, htext⟩ := text_of_readAtom h
  rw [List.append_nil] at hs
  exact hs ▸ htext

/-- Escapes are taken off again. -/
theorem quotedText_escape {s : Bytes} (h : ∀ b ∈ s, b ≠ Byte.cr ∧ b ≠ Byte.lf) :
    QuotedText (s.flatMap Item.escapeQuoted) s := by
  induction s with
  | nil => exact .nil
  | cons b s ih =>
    obtain ⟨hb, hs⟩ := List.forall_mem_cons.1 h
    rw [List.flatMap_cons, Item.escapeQuoted]
    split
    · next hescape => exact .escaped hescape (ih hs)
    · next hescape =>
      rw [not_or] at hescape
      exact .plain hb hescape (ih hs)

/-- The marker that is written announces the literal. -/
theorem announces_literalMarker {n : Nat} (h : n < Decimal.limit) (plus binary : Bool) :
    LiteralMarker.Announces ⟨n, binary, !plus⟩ (Item.literalMarker plus binary n) := by
  refine ⟨_, .mk (Decimal.read?_write h), ?_⟩
  unfold Item.literalMarker LiteralMarker.opening
  cases plus <;> cases binary <;> simp

/-- Further items are a space and the items. -/
theorem concat_writeMore_cons (mode : LiteralMode) (x : Item) (xs : List Item) :
    (Item.writeMore mode (x :: xs)).concat
      = Byte.space :: (Item.writeAll mode (x :: xs)).concat := by
  rw [Item.writeMore, Item.writeAll, Segments.concat_append, Segments.concat_append,
    Segments.concat_append, Segments.concat_ofBytes, List.append_assoc]
  rfl

/-! ## Reading what was written -/

/-- What may stand behind an item: a space, the end of a list, or a line end. -/
def Follows (rest : Bytes) : Prop :=
  ∃ b s, rest = b :: s ∧ (b = Byte.space ∨ b = Byte.closeParen ∨ b = Byte.cr)

theorem follows_crlf (t : Bytes) : Follows (Bytes.crlf ++ t) :=
  ⟨Byte.cr, Byte.lf :: t, rfl, .inr (.inr rfl)⟩

theorem follows_closeParen (t : Bytes) : Follows (Byte.closeParen :: t) :=
  ⟨Byte.closeParen, t, rfl, .inr (.inl rfl)⟩

theorem follows_space (t : Bytes) : Follows (Byte.space :: t) :=
  ⟨Byte.space, t, rfl, .inl rfl⟩

namespace Follows

variable {rest : Bytes}

theorem ne_nil (h : Follows rest) : rest ≠ [] := by
  obtain ⟨b, s, rfl, -⟩ := h
  simp

theorem stopsAtom (h : Follows rest) : StopsAtom rest.head? := by
  obtain ⟨b, s, rfl, hb⟩ := h
  intro c hc
  obtain rfl := Option.some.inj hc
  rcases hb with rfl | rfl | rfl <;> decide

theorem head?_ne_openBrace (h : Follows rest) : rest.head? ≠ some Byte.openBrace := by
  obtain ⟨b, s, rfl, hb⟩ := h
  rw [List.head?_cons, ne_eq, Option.some.injEq]
  rcases hb with rfl | rfl | rfl <;> decide

end Follows

/-- The nest with more items in the innermost list. -/
def Nest.pushAll (n : Nest) (xs : List Item) : Nest := { n with inner := xs.reverse ++ n.inner }

theorem Nest.pushAll_nil (n : Nest) : n.pushAll [] = n := rfl

theorem Nest.pushAll_cons (n : Nest) (x : Item) (xs : List Item) :
    n.pushAll (x :: xs) = (n.push x).pushAll xs := by
  simp [pushAll, push]

/-- A list that is opened, filled and closed is an item of the list around it. -/
theorem Nest.closeList?_pushAll (n : Nest) (xs : List Item) :
    (n.openList.pushAll xs).closeList? = some (n.push (.list xs)) := by
  simp [openList, pushAll, closeList?, push]

theorem Nest.items?_pushAll (xs : List Item) : (empty.pushAll xs).items? = some xs := by
  simp [empty, pushAll, items?]

section
variable {maxLiteral : Nat} {nest : Nest} {waits : Nat} {rest : Bytes}

theorem run_openParen (s : Bytes) : Scan.run maxLiteral nest waits (Byte.openParen :: s)
    = Scan.run maxLiteral nest.openList waits s := Scan.run_of_spells .openList

theorem run_closeParen {next : Nest} (h : nest.closeList? = some next) (s : Bytes) :
    Scan.run maxLiteral nest waits (Byte.closeParen :: s) = Scan.run maxLiteral next waits s := by
  have hrun : Scan.run maxLiteral nest waits ([Byte.closeParen] ++ s)
      = Scan.after maxLiteral nest waits .closeList s := Scan.run_of_spells .closeList
  rw [Scan.after, h] at hrun
  exact hrun

theorem run_space (s : Bytes) : Scan.run maxLiteral nest waits (Byte.space :: s)
    = Scan.run maxLiteral nest waits s := Scan.run_of_spells .blank

/-- A line end outside of all lists ends the items. -/
theorem run_crlf {items : List Item} (h : nest.items? = some items) (t : Bytes) :
    Scan.run maxLiteral nest waits (Bytes.crlf ++ t) = .ok (.complete items waits t) := by
  rw [Scan.run_of_spells .lineEnd, Scan.after, h]

theorem run_word {s : Bytes} (hs : AtomText s) (hne : s ≠ []) (hrest : Follows rest) :
    Scan.run maxLiteral nest waits (s ++ rest)
      = Scan.run maxLiteral (nest.push (.ofWord s)) waits rest :=
  Scan.run_of_spells (.atom hs hne hrest.stopsAtom fun h => hrest.head?_ne_openBrace h.2)

theorem run_quoted {s : Bytes} (h : ∀ b ∈ s, b ≠ Byte.cr ∧ b ≠ Byte.lf) :
    Scan.run maxLiteral nest waits (Item.writeQuoted s ++ rest)
      = Scan.run maxLiteral (nest.push (.quoted s)) waits rest :=
  Scan.run_of_spells (.quoted (quotedText_escape h))

/-- A literal is read back in whatever mode it was sent. -/
theorem run_literal {s : Bytes} (hfit : s.length ≤ maxLiteral) (hlimit : s.length < Decimal.limit)
    (mode : LiteralMode) (binary : Bool) (hrest : rest ≠ []) :
    Scan.run maxLiteral nest waits ((Item.writeLiteral mode s binary).concat ++ rest)
      = Scan.run maxLiteral (nest.push (.literal s binary)) (waits + Item.waits mode [s]) rest := by
  have hconcat : (Item.writeLiteral mode s binary).concat
      = Item.literalMarker (mode = .nonSynchronising) binary s.length ++ s := by
    rw [Item.writeLiteral, Segments.concat_append, Segments.concat_append, Segments.concat_ofBytes,
      Segments.concat_ofBytes]
    cases mode <;> simp [Segments.concat_pause, Segments.concat_empty]
  have hwaits : Item.waits mode [s] = (!decide (mode = .nonSynchronising)).toNat := by
    cases mode <;> rfl
  have hmarker := announces_literalMarker hlimit (mode = .nonSynchronising) binary
  rw [hconcat, hwaits, List.append_assoc]
  exact Scan.run_of_literal hmarker hfit rfl (List.append_ne_nil_of_right_ne_nil s hrest)

end

mutual

/-- An item that has been written is read back, whatever is open around it. -/
theorem run_write (maxLiteral : Nat) (mode : LiteralMode) :
    ∀ (x : Item) (nest : Nest) (waits : Nat) (rest : Bytes), x.WellFormed maxLiteral →
      Follows rest →
      Scan.run maxLiteral nest waits ((x.write mode).concat ++ rest)
        = Scan.run maxLiteral (nest.push x) (waits + Item.waits mode x.literals) rest
  | .atom s, nest, waits, rest, hx, hrest => by
    obtain ⟨hne, htext, hnil⟩ := hx
    have hword : Item.ofWord s = .atom s := by rw [Item.ofWord, if_neg (by simp [hnil])]
    rw [Item.write, Segments.concat_ofBytes, run_word htext hne hrest, hword]
    simp [Item.literals, Item.waits]
  | .quoted s, nest, waits, rest, hx, hrest => by
    rw [Item.write, Segments.concat_ofBytes, run_quoted hx]
    simp [Item.literals, Item.waits]
  | .literal s binary, nest, waits, rest, hx, hrest => by
    rw [Item.write, run_literal hx.1 hx.2 mode binary hrest.ne_nil, Item.literals]
  | .nil, nest, waits, rest, hx, hrest => by
    have htext : AtomText Item.nilWord := atomText_of_readAtom (by decide)
    have hword : Item.ofWord Item.nilWord = .nil := by decide
    rw [Item.write, Segments.concat_ofBytes, run_word htext (by decide) hrest, hword]
    simp [Item.literals, Item.waits]
  | .list xs, nest, waits, rest, hx, hrest => by
    -- the items are read into the list that has just been opened, which then is closed
    rw [Item.write, Segments.concat_append, Segments.concat_append, Segments.concat_ofBytes,
      Segments.concat_ofBytes, List.append_assoc, List.append_assoc]
    show Scan.run maxLiteral nest waits (Byte.openParen :: (_ ++ Byte.closeParen :: rest)) = _
    rw [run_openParen, run_writeAll maxLiteral mode xs _ _ _ hx (follows_closeParen rest),
      run_closeParen (nest.closeList?_pushAll xs), Item.literals]

/-- Items that have been written in a row are read back in order. -/
theorem run_writeAll (maxLiteral : Nat) (mode : LiteralMode) :
    ∀ (xs : List Item) (nest : Nest) (waits : Nat) (rest : Bytes),
      Item.AllWellFormed maxLiteral xs → Follows rest →
      Scan.run maxLiteral nest waits ((Item.writeAll mode xs).concat ++ rest)
        = Scan.run maxLiteral (nest.pushAll xs) (waits + Item.waits mode (Item.literalsAll xs)) rest
  | [], nest, waits, rest, hxs, hrest => by
    simp [Item.writeAll, Segments.concat_empty, Nest.pushAll_nil, Item.literalsAll, Item.waits]
  | x :: xs, nest, waits, rest, hxs, hrest => by
    obtain ⟨hfollows, hmore⟩ := run_writeMore maxLiteral mode xs (nest.push x)
      (waits + Item.waits mode x.literals) rest hxs.2 hrest
    rw [Item.writeAll, Segments.concat_append, List.append_assoc,
      run_write maxLiteral mode x _ _ _ hxs.1 hfollows, hmore, Nest.pushAll_cons, Item.literalsAll,
      Item.waits_append, Nat.add_assoc]

/-- So are further items, each after a space. -/
theorem run_writeMore (maxLiteral : Nat) (mode : LiteralMode) :
    ∀ (xs : List Item) (nest : Nest) (waits : Nat) (rest : Bytes),
      Item.AllWellFormed maxLiteral xs → Follows rest →
      Follows ((Item.writeMore mode xs).concat ++ rest)
        ∧ Scan.run maxLiteral nest waits ((Item.writeMore mode xs).concat ++ rest)
          = Scan.run maxLiteral (nest.pushAll xs)
            (waits + Item.waits mode (Item.literalsAll xs)) rest
  | [], nest, waits, rest, hxs, hrest => by
    refine ⟨hrest, ?_⟩
    simp [Item.writeMore, Segments.concat_empty, Nest.pushAll_nil, Item.literalsAll, Item.waits]
  | x :: xs, nest, waits, rest, hxs, hrest => by
    obtain ⟨hfollows, hmore⟩ := run_writeMore maxLiteral mode xs (nest.push x)
      (waits + Item.waits mode x.literals) rest hxs.2 hrest
    have hconcat : (Item.writeMore mode (x :: xs)).concat ++ rest
        = Byte.space :: ((x.write mode).concat ++ ((Item.writeMore mode xs).concat ++ rest)) := by
      rw [concat_writeMore_cons, Item.writeAll, Segments.concat_append, List.cons_append,
        List.append_assoc]
    rw [hconcat]
    refine ⟨follows_space _, ?_⟩
    rw [run_space, run_write maxLiteral mode x _ _ _ hxs.1 hfollows, hmore, Nest.pushAll_cons,
      Item.literalsAll, Item.waits_append, Nat.add_assoc]

end

/-- Items that are written at the end of their line are read as these items. -/
theorem parse_writeAll {maxLiteral : Nat} {xs : List Item} (h : Item.AllWellFormed maxLiteral xs)
    (mode : LiteralMode) (t : Bytes) :
    Item.parse maxLiteral ((Item.writeAll mode xs).concat ++ (Bytes.crlf ++ t))
      = .ok (.complete xs (Item.waits mode (Item.literalsAll xs)) t) := by
  rw [Item.parse, run_writeAll maxLiteral mode xs _ _ _ h (follows_crlf t),
    run_crlf (Nest.items?_pushAll xs), Nat.zero_add]

end Imap

end MailProtocol
