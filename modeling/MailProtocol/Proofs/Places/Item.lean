import MailProtocol.Proofs.Places.Lexeme

/-!
# Reading items by places

Items are read lexeme by lexeme from an index on, and each lexeme moves the index on. The reading
comes to what `Item.parse` finds in the end that begins at the index (`Item.comes_parseAt`).
-/

namespace MailProtocol.Imap

/-- What items are found to be, and the place behind their logical line. -/
inductive PlacedScan where
  | complete (items : List Item) (waits : Nat) (stop : Nat)
  | incomplete (needs : PlacedNeeds)

/-- What has been found in the fragment `s`, told by places. -/
def Scan.placed (s : Bytes) : Scan → PlacedScan
  | complete items waits rest => .complete items waits (s.length - rest.length)
  | incomplete needs => .incomplete (needs.placed s)

/-- Read items from a place on. -/
def itemsAt (maxLiteral : Nat) (s : Bytes) (ix : Nat) (nest : Nest) (waits : Nat) :
    Except Trap (Except Fault PlacedScan) :=
  match _h : s[ix]? with
  | none => .ok (.ok (.incomplete .line))
  | some b => do
    match ← Lexeme.firstAt maxLiteral s ix b with
    | .wrong fault => return .error fault
    | .wanting needs => return .ok (.incomplete needs)
    | .found lexeme next =>
      -- every lexeme takes a byte, which only its reading shows
      if _hnext : next ≤ ix then throw .stuck
      else match lexeme with
        | .blank => itemsAt maxLiteral s next nest waits
        | .lineEnd =>
          match nest.items? with
          | none => return .error .unclosedParenthesis
          | some items => return .ok (.complete items waits next)
        | .openList => itemsAt maxLiteral s next nest.openList waits
        | .closeList =>
          match nest.closeList? with
          | none => return .error .unopenedParenthesis
          | some nest => itemsAt maxLiteral s next nest waits
        | .item x waited => itemsAt maxLiteral s next (nest.push x) (waits + waited.toNat)
termination_by s.length - ix
decreasing_by
  all_goals
    have := (List.getElem?_eq_some_iff.1 _h).1
    omega

/-- Read items up to the end of their logical line, from a place on. -/
def Item.parseAt (maxLiteral : Nat) (s : Bytes) (start : Nat) :
    Except Trap (Except Fault PlacedScan) := itemsAt maxLiteral s start .empty 0

section
variable {maxLiteral ix : Nat} {s t : Bytes} {nest : Nest} {waits : Nat}

/-- Go on after a lexeme, from the place behind it. -/
def afterAt (maxLiteral : Nat) (s : Bytes) (nest : Nest) (waits : Nat) (lexeme : Lexeme)
    (next : Nat) : Except Trap (Except Fault PlacedScan) :=
  match lexeme with
  | .blank => itemsAt maxLiteral s next nest waits
  | .lineEnd =>
    match nest.items? with
    | none => .ok (.error .unclosedParenthesis)
    | some items => .ok (.ok (.complete items waits next))
  | .openList => itemsAt maxLiteral s next nest.openList waits
  | .closeList =>
    match nest.closeList? with
    | none => .ok (.error .unopenedParenthesis)
    | some nest => itemsAt maxLiteral s next nest waits
  | .item x waited => itemsAt maxLiteral s next (nest.push x) (waits + waited.toNat)

theorem itemsAt_nil (h : At s ix []) :
    itemsAt maxLiteral s ix nest waits = .ok (.ok (.incomplete .line)) := by
  rw [itemsAt]
  split
  · rfl
  · next c hc =>
    rw [h.get] at hc
    cases hc

theorem itemsAt_cons {b : UInt8} (h : At s ix (b :: t)) :
    itemsAt maxLiteral s ix nest waits = Lexeme.firstAt maxLiteral s ix b >>= fun
      | .wrong fault => .ok (.error fault)
      | .wanting needs => .ok (.ok (.incomplete needs))
      | .found lexeme place =>
        if place ≤ ix then .error .stuck else afterAt maxLiteral s nest waits lexeme place := by
  rw [itemsAt]
  split
  · next hc =>
    rw [h.get] at hc
    cases hc
  · next c hc =>
    rw [h.get] at hc
    obtain rfl := Option.some.inj hc
    rfl

/-- Items are read from a place on as they are read from the front of the end that begins there. -/
theorem comes_itemsAt (h : At s ix t) :
    Comes (s.length + maxLiteral < UInt64.size) (itemsAt maxLiteral s ix nest waits)
      ((Scan.run maxLiteral nest waits t).map (Scan.placed s)) := by
  induction hn : t.length using Nat.strong_induction_on generalizing ix t nest waits with
  | _ n ih =>
  cases t with
  | nil =>
    rw [itemsAt_nil h, Scan.run_nil]
    exact .pure _
  | cons b t =>
    rw [itemsAt_cons h, Scan.run_cons]
    refine (Lexeme.comes_firstAt h).bind ?_
    rcases hfirst : Lexeme.first maxLiteral b t with ⟨lexeme, rest⟩ | needs | fault
    · -- the lexeme leaves an end of what follows its first byte
      have hsuffix := suffix_of_first hfirst
      have hrest := h.tail.of_suffix_at hsuffix
      have hlt : rest.length < n := by
        rw [← hn]
        exact Nat.lt_succ_of_le hsuffix.length_le
      have hnext : ¬s.length - rest.length ≤ ix := by
        have := h.length_eq
        have := hrest.length_eq
        omega
      have hgo (nest : Nest) (waits : Nat) : Comes (s.length + maxLiteral < UInt64.size)
          (itemsAt maxLiteral s (s.length - rest.length) nest waits)
          ((Scan.run maxLiteral nest waits rest).map (Scan.placed s)) := ih _ hlt hrest rfl
      show Comes _ (if s.length - rest.length ≤ ix then _ else _) _
      rw [if_neg hnext]
      cases lexeme with
      | blank => exact hgo nest waits
      | lineEnd =>
        unfold afterAt Scan.after
        cases nest.items? with
        | none => exact .pure _
        | some items => exact .pure _
      | openList => exact hgo nest.openList waits
      | closeList =>
        unfold afterAt Scan.after
        cases nest.closeList? with
        | none => exact .pure _
        | some nest => exact hgo nest waits
      | item x waited => exact hgo (nest.push x) (waits + waited.toNat)
    · exact .pure _
    · exact .pure _

theorem Item.comes_parseAt (h : At s ix t) :
    Comes (s.length + maxLiteral < UInt64.size) (Item.parseAt maxLiteral s ix)
      ((Item.parse maxLiteral t).map (Scan.placed s)) := comes_itemsAt h

end

end MailProtocol.Imap
