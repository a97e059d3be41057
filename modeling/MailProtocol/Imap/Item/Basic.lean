import MailProtocol.Bytes.Decimal

/-!
# Data items

Command arguments, data responses and the arguments of response codes are made of items: atoms,
quoted strings, literals, `NIL` and lists of items.

An arbitrary string becomes an item by `Item.astring` or `Item.string`, in the simplest form that
can carry it. Both are careful: an atom is chosen only for a few harmless characters, a quoted
string only for short printable text that needs no escapes, and a literal for everything else.
-/

namespace MailProtocol.Imap

/-- One data item. -/
inductive Item where
  /-- A bare word: numbers, flags and section specifiers such as `BODY[HEADER.FIELDS (FROM)]`. -/
  | atom (s : Bytes)
  /-- A quoted string, its escapes taken off. -/
  | quoted (s : Bytes)
  /-- A string announced by its length; `binary` ones may hold NUL bytes. -/
  | literal (s : Bytes) (binary : Bool)
  | nil
  | list (items : List Item)
deriving Inhabited

namespace Item

/-! ## Equality -/

mutual

/-- Two items are equal. -/
def beq : Item → Item → Bool
  | atom s, atom t => s == t
  | quoted s, quoted t => s == t
  | literal s b, literal t c => s == t && b == c
  | nil, nil => true
  | list xs, list ys => beqAll xs ys
  | _, _ => false

/-- Two lists of items are equal. -/
def beqAll : List Item → List Item → Bool
  | [], [] => true
  | x :: xs, y :: ys => beq x y && beqAll xs ys
  | _, _ => false

end

mutual

theorem beq_eq_true : ∀ x y : Item, beq x y = true ↔ x = y
  | atom s, y => by cases y <;> simp [beq]
  | quoted s, y => by cases y <;> simp [beq]
  | literal s b, y => by cases y <;> simp [beq]
  | nil, y => by cases y <;> simp [beq]
  | list xs, y => by cases y <;> simp [beq, beqAll_eq_true xs]

theorem beqAll_eq_true : ∀ xs ys : List Item, beqAll xs ys = true ↔ xs = ys
  | [], ys => by cases ys <;> simp [beqAll]
  | x :: xs, ys => by cases ys <;> simp [beqAll, beq_eq_true x, beqAll_eq_true xs]

end

instance : DecidableEq Item := fun x y => decidable_of_iff _ (beq_eq_true x y)

/-! ## Strings as items -/

/-- A byte of the atoms that `astring` writes: letters, digits and `=?/+_.-`. -/
def isConservative (b : UInt8) : Bool :=
  Byte.isLetter b || Byte.isDigit b || (Bytes.ascii "=?/+_.-").contains b

/-- The string can be written as an atom without any doubt. -/
def isConservativeAtom (s : Bytes) : Bool :=
  !Bytes.eqIgnoreCase (Bytes.ascii "NIL") s && !s.isEmpty && s.all isConservative

/-- The string can be written between quotes without escapes, and is short. -/
def isQuotable (s : Bytes) : Bool :=
  s.length < 100 &&
    s.all fun b => Byte.isPrintable b && b != Byte.backslash && b != Byte.quote

/-- A string as an item that is no atom. -/
def string (s : Bytes) : Item := if isQuotable s then quoted s else literal s false

/-- A string as an item of any form. -/
def astring (s : Bytes) : Item := if isConservativeAtom s then atom s else string s

/-! ## What an item holds -/

/-- The content of an atom, a quoted string or a literal. -/
def content? : Item → Option Bytes
  | atom s | quoted s | literal s _ => some s
  | nil | list _ => none

/-- The members of a list. -/
def items? : Item → Option (List Item)
  | list items => some items
  | _ => none

/-- The item is `NIL`. -/
def isNil : Item → Bool
  | nil => true
  | _ => false

/-- The number that an atom stands for. -/
def number? : Item → Option Nat
  | atom s => Decimal.read? s
  | _ => none

mutual

/-- The item is a literal or has one at some depth. -/
def hasLiteral : Item → Bool
  | literal .. => true
  | list items => anyLiteral items
  | _ => false

/-- Some of the items is a literal or has one at some depth. -/
def anyLiteral : List Item → Bool
  | [] => false
  | x :: xs => hasLiteral x || anyLiteral xs

end

end Item

end MailProtocol.Imap
