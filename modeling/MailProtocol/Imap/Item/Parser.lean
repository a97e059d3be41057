import MailProtocol.Grammar
import MailProtocol.Imap.Item.Basic
import MailProtocol.Imap.LiteralMarker

/-!
# Reading items

Items are read up to the end of their logical line, which goes on over the line ends that belong to
literals. `Lexeme.first` takes the first lexeme off a string, and `Item.parse` gathers lexemes into
items, with the lists that are still open on a stack (`Nest`).

Atoms may hold bracketed sections, inside of which spaces and parentheses are part of the atom. An
empty literal whose marker ends the fragment is not there yet: its length has been announced, and
its sender may still be waiting.
-/

namespace MailProtocol.Imap

/-! ## Lexemes -/

/-- The bytes that end an atom. -/
def endsAtom (b : UInt8) : Bool :=
  b == Byte.space || b == Byte.cr || b == Byte.lf || b == Byte.openParen || b == Byte.closeParen
    || b == Byte.quote || b == Byte.openBrace

/-- Read on in an atom of which `done` has been read, newest first. Inside a bracketed section
everything counts up to the closing bracket; `none` if the section stays open on its line. -/
def readAtom (inSection : Bool) (done : Bytes) : Bytes → Option (Bytes × Bytes)
  | [] => if inSection then none else some (done.reverse, [])
  | b :: rest =>
    if inSection then
      if b = Byte.cr ∨ b = Byte.lf then none
      else readAtom (b != Byte.closeBracket) (b :: done) rest
    else if endsAtom b then some (done.reverse, b :: rest)
    else readAtom (b == Byte.openBracket) (b :: done) rest

/-- Read on in a quoted string of which `done` has been read, newest first. -/
def readQuoted (done : Bytes) : Bytes → Except Fault (Bytes × Bytes)
  | [] => .error .unterminatedQuoted
  | b :: rest =>
    if b = Byte.cr ∨ b = Byte.lf then .error .unterminatedQuoted
    else if b = Byte.quote then .ok (done.reverse, rest)
    else if b = Byte.backslash then
      match rest with
      | [] => .error .invalidEscape
      | e :: rest =>
        if e = Byte.quote ∨ e = Byte.backslash then readQuoted (e :: done) rest
        else .error .invalidEscape
    else readQuoted (b :: done) rest

/-- A piece of the text of items. -/
inductive Lexeme where
  | blank
  | lineEnd
  | openList
  | closeList
  /-- An item that is no list, and whether its sender waited to be asked for it. -/
  | item (x : Item) (waited : Bool)

/-- What the front of a string is found to be. -/
inductive Lexed where
  | found (lexeme : Lexeme) (rest : Bytes)
  | wanting (needs : Needs)
  | wrong (fault : Fault)

/-- The word of an atom, or `NIL`. -/
def Item.ofWord (s : Bytes) : Item :=
  if Bytes.eqIgnoreCase s (Bytes.ascii "NIL") then .nil else .atom s

/-- A literal whose marker has been read, if all its bytes are there. -/
def Lexeme.literal (marker : LiteralMarker) (s : Bytes) : Lexed :=
  let body := s.take marker.length
  if body.length < marker.length ∨ s.isEmpty then
    .wanting (.literal (marker.length - body.length) marker.synchronising)
  else .found (.item (.literal body marker.binary) marker.synchronising) (s.drop marker.length)

/-- The first lexeme of a string that begins with the byte `b`. Literals longer than `maxLiteral`
are refused. -/
def Lexeme.first (maxLiteral : Nat) (b : UInt8) (s : Bytes) : Lexed :=
  if b = Byte.space then .found .blank s
  else if b = Byte.cr then
    match s with
    | [] => .wanting .line
    | Byte.lf :: rest => .found .lineEnd rest
    | _ :: _ => .wrong .bareCarriageReturn
  else if b = Byte.lf then .wrong .bareLineFeed
  else if b = Byte.openParen then .found .openList s
  else if b = Byte.closeParen then .found .closeList s
  else if b = Byte.quote then
    match readQuoted [] s with
    | .error fault => .wrong fault
    | .ok (content, rest) => .found (.item (.quoted content) false) rest
  else match LiteralMarker.begin? (b :: s) with
    | some (binary, afterBrace) =>
      match LiteralMarker.read binary afterBrace with
      | .error fault => .wrong fault
      | .ok (marker, data) =>
        if maxLiteral < marker.length then .wrong (.literalTooLong marker.length)
        else Lexeme.literal marker data
    | none =>
      match readAtom (b == Byte.openBracket) [b] s with
      | none => .wrong .unclosedSection
      | some (word, rest) => .found (.item (.ofWord word) false) rest

/-! ## What is left is the end of what there was -/

theorem suffix_of_readAtom {inSection : Bool} {done s word rest : Bytes}
    (h : readAtom inSection done s = some (word, rest)) : rest <:+ s := by
  induction s generalizing inSection done with
  | nil =>
    unfold readAtom at h
    split at h <;> simp_all
  | cons b s ih =>
    unfold readAtom at h
    split at h
    · split at h
      · simp at h
      · exact (ih h).trans (List.suffix_cons b s)
    · split at h
      · simp_all
      · exact (ih h).trans (List.suffix_cons b s)

theorem suffix_of_readQuoted {done s t rest : Bytes} (h : readQuoted done s = .ok (t, rest)) :
    rest <:+ s := by
  fun_induction readQuoted done s with
  | case1 | case2 | case4 | case6 => simp at h
  | case3 => simp_all
  | case5 =>
    rename_i ih
    exact (ih h).trans ((List.suffix_cons _ _).trans (List.suffix_cons _ _))
  | case7 =>
    rename_i ih
    exact (ih h).trans (List.suffix_cons _ _)

theorem suffix_of_begin? {b : UInt8} {s rest : Bytes} {binary : Bool}
    (h : LiteralMarker.begin? (b :: s) = some (binary, rest)) : rest <:+ s := by
  unfold LiteralMarker.begin? at h
  split at h <;> simp_all

theorem suffix_of_read {binary : Bool} {s rest : Bytes} {marker : LiteralMarker}
    (h : LiteralMarker.read binary s = .ok (marker, rest)) : rest <:+ s := by
  have hd := List.dropWhile_suffix (l := s) Byte.isDigit
  unfold LiteralMarker.read at h
  simp only at h
  split at h
  · simp at h
  · split at h
    · simp at h
    · generalize s.dropWhile Byte.isDigit = t at h hd
      refine List.IsSuffix.trans ?_ hd
      split at h
      · next _ _ heq =>
        simp only [Except.ok.injEq, Prod.mk.injEq] at h
        obtain ⟨-, rfl⟩ := h
        have three (a b c : UInt8) (l : Bytes) : l <:+ a :: b :: c :: l := ⟨[a, b, c], rfl⟩
        split at heq
        · simp only at heq
          exact heq ▸ (three _ _ _ _).trans (List.suffix_cons _ _)
        · simp only at heq
          exact heq ▸ three _ _ _ _
      · simp at h
      · simp at h

theorem suffix_of_literal {marker : LiteralMarker} {s rest : Bytes} {lexeme : Lexeme}
    (h : Lexeme.literal marker s = .found lexeme rest) : rest <:+ s := by
  unfold Lexeme.literal at h
  simp only at h
  split at h
  · simp at h
  · simp only [Lexed.found.injEq] at h
    exact h.2 ▸ List.drop_suffix _ _

/-- A lexeme takes the first byte, and what is left is the end of the rest. -/
theorem suffix_of_first {maxLiteral : Nat} {b : UInt8} {s rest : Bytes} {lexeme : Lexeme}
    (h : Lexeme.first maxLiteral b s = .found lexeme rest) : rest <:+ s := by
  unfold Lexeme.first at h
  repeat' split at h
  all_goals try simp only [reduceCtorEq] at h
  · simp_all
  · simp only [Lexed.found.injEq] at h
    exact h.2 ▸ List.suffix_cons _ _
  · simp_all
  · simp_all
  · simp only [Lexed.found.injEq] at h
    exact h.2 ▸ suffix_of_readQuoted ‹_›
  · exact ((suffix_of_literal h).trans (suffix_of_read ‹_›)).trans (suffix_of_begin? ‹_›)
  · simp only [Lexed.found.injEq] at h
    exact h.2 ▸ suffix_of_readAtom ‹_›

/-! ## Items -/

/-- Items read so far, newest first: those of the innermost open list, and outside of it those of
each list around it. -/
structure Nest where
  inner : List Item
  outer : List (List Item)

namespace Nest

/-- Nothing read, nothing open. -/
def empty : Nest := ⟨[], []⟩

/-- Add an item. -/
def push (n : Nest) (x : Item) : Nest := { n with inner := x :: n.inner }

/-- Open a list. -/
def openList (n : Nest) : Nest := ⟨[], n.inner :: n.outer⟩

/-- Close the innermost list, if one is open. -/
def closeList? (n : Nest) : Option Nest :=
  match n.outer with
  | [] => none
  | around :: outer => some ⟨.list n.inner.reverse :: around, outer⟩

/-- The items, if no list is open. -/
def items? (n : Nest) : Option (List Item) := if n.outer.isEmpty then some n.inner.reverse else none

end Nest

/-- What the text of items is found to be. -/
inductive Scan where
  /-- The items of a logical line, how many literals their sender waited to be asked for, and what
  follows the line. -/
  | complete (items : List Item) (waits : Nat) (rest : Bytes)
  | incomplete (needs : Needs)

/-- Read on in the text of items. -/
def Scan.run (maxLiteral : Nat) (nest : Nest) (waits : Nat) : Bytes → Except Fault Scan
  | [] => .ok (.incomplete .line)
  | b :: s =>
    match _h : Lexeme.first maxLiteral b s with
    | .wrong fault => .error fault
    | .wanting needs => .ok (.incomplete needs)
    | .found lexeme rest =>
      match lexeme with
      | .blank => run maxLiteral nest waits rest
      | .lineEnd =>
        match nest.items? with
        | none => .error .unclosedParenthesis
        | some items => .ok (.complete items waits rest)
      | .openList => run maxLiteral nest.openList waits rest
      | .closeList =>
        match nest.closeList? with
        | none => .error .unopenedParenthesis
        | some nest => run maxLiteral nest waits rest
      | .item x waited => run maxLiteral (nest.push x) (waits + waited.toNat) rest
termination_by s => s.length
decreasing_by all_goals exact Nat.lt_succ_of_le (suffix_of_first _h).length_le

/-- Read items up to the end of their logical line. -/
def Item.parse (maxLiteral : Nat) (s : Bytes) : Except Fault Scan := Scan.run maxLiteral .empty 0 s

/-- An end of `s` is a proper end of `b :: s`. -/
theorem proper_suffix_cons {b : UInt8} {s rest : Bytes} (h : rest <:+ s) :
    rest <:+ b :: s ∧ rest.length < (b :: s).length :=
  ⟨h.trans (List.suffix_cons b s), Nat.lt_succ_of_le h.length_le⟩

/-- What follows a logical line is a proper end of the whole. -/
theorem suffix_of_run {maxLiteral waits waits' : Nat} {nest : Nest} {s rest : Bytes}
    {items : List Item} (h : Scan.run maxLiteral nest waits s = .ok (.complete items waits' rest)) :
    rest <:+ s ∧ rest.length < s.length := by
  fun_induction Scan.run maxLiteral nest waits s with
  | case1 | case2 | case3 | case5 | case8 => simp at h
  | case6 =>
    simp only [Except.ok.injEq, Scan.complete.injEq] at h
    exact proper_suffix_cons (h.2.2 ▸ suffix_of_first ‹_›)
  | case4 | case7 | case9 | case10 =>
    rename_i hfirst ih
    exact proper_suffix_cons ((ih h).1.trans (suffix_of_first hfirst))

end MailProtocol.Imap
