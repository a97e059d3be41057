import MailProtocol.Proofs.Imap.ItemRoundTrip
import MailProtocol.Proofs.Places.Item

/-!
# The grammar of items

The text of items is made of spaces and elements (`Elements`). An element is a list of elements in
parentheses, a quoted string, a literal behind its announcement, or an atom (`Element`).

The reader never sees this tree: it takes lexeme after lexeme and keeps the lists that are still
open on a stack. Still it accepts exactly what the grammar derives, up to the line end behind it
(`parse_eq_complete_iff`). What derives items was read lexeme by lexeme (`run_elements`), and what
has been read derives items list by list (`elements_of_run`). So no text derives items in two ways
(`Elements.unique`).
-/

namespace MailProtocol.Imap

/-! ## The grammar -/

/-- The announcement of a literal by the digits of its length. -/
def announcement (binary : Bool) (digits : Bytes) (plus : Bool) : Bytes :=
  (if binary then [Byte.tilde] else []) ++ Byte.openBrace :: (digits
    ++ ((if plus then [Byte.plus] else []) ++ Byte.closeBrace :: Bytes.crlf))

/-- In front of `rest` the text is a whole atom: its bytes are those of an atom, `rest` ends it, and
no announcement is meant. -/
structure IsAtom (text rest : Bytes) : Prop where
  bytes : AtomText text
  ne_nil : text ≠ []
  ends : ∃ b more, rest = b :: more ∧ endsAtom b = true
  noMarker : ¬[Byte.tilde, Byte.openBrace] <+: text ++ rest

mutual

/-- In front of `rest` the text is one element. It gives the item, and has so many literals that
are announced without a plus sign. -/
inductive Element (maxLiteral : Nat) : Bytes → Item → Nat → Bytes → Prop
  | list {text rest : Bytes} {items : List Item} {waits : Nat}
    (hitems : Elements maxLiteral text items waits (Byte.closeParen :: rest)) :
    Element maxLiteral (Byte.openParen :: (text ++ [Byte.closeParen])) (.list items) waits rest
  | quoted {text content rest : Bytes} (htext : QuotedText text content) :
    Element maxLiteral (Byte.quote :: (text ++ [Byte.quote])) (.quoted content) 0 rest
  | literal {binary plus : Bool} {digits data rest : Bytes} (hne : digits ≠ [])
    (hdigits : ∀ b ∈ digits, Byte.isDigit b) (hlength : Decimal.value digits = data.length)
    (hfit : data.length ≤ maxLiteral) :
    Element maxLiteral (announcement binary digits plus ++ data) (.literal data binary)
      (if plus then 0 else 1) rest
  | nil {text rest : Bytes} (hatom : IsAtom text rest)
    (hnil : Bytes.eqIgnoreCase text (Bytes.ascii "NIL") = true) :
    Element maxLiteral text .nil 0 rest
  | atom {text rest : Bytes} (hatom : IsAtom text rest)
    (hnil : Bytes.eqIgnoreCase text (Bytes.ascii "NIL") = false) :
    Element maxLiteral text (.atom text) 0 rest

/-- In front of `rest` the text is made of spaces and elements. They give the items, and have so
many literals that are announced without a plus sign. -/
inductive Elements (maxLiteral : Nat) : Bytes → List Item → Nat → Bytes → Prop
  | nil {rest : Bytes} : Elements maxLiteral [] [] 0 rest
  | space {text rest : Bytes} {items : List Item} {waits : Nat}
    (hitems : Elements maxLiteral text items waits rest) :
    Elements maxLiteral (Byte.space :: text) items waits rest
  | cons {text more rest : Bytes} {x : Item} {items : List Item} {waits waits' : Nat}
    (hx : Element maxLiteral text x waits (more ++ rest))
    (hitems : Elements maxLiteral more items waits' rest) :
    Elements maxLiteral (text ++ more) (x :: items) (waits + waits') rest

end

/-! ## Elements and lexemes -/

/-- An announcement by digits is that of their number. -/
theorem announces_announcement {digits : Bytes} (hne : digits ≠ [])
    (hdigits : ∀ b ∈ digits, Byte.isDigit b) (hlimit : Decimal.value digits < Decimal.limit)
    (binary plus : Bool) :
    LiteralMarker.Announces ⟨Decimal.value digits, binary, !plus⟩
      (announcement binary digits plus) := by
  have hread := Decimal.read?_eq_some_iff.2 ⟨hne, hdigits, rfl, hlimit⟩
  refine ⟨_, .mk hread, ?_⟩
  unfold announcement LiteralMarker.opening
  cases binary <;> cases plus <;> rfl

/-- Whatever announces a literal does it by digits. -/
theorem exists_announcement {m : LiteralMarker} {text : Bytes} (h : m.Announces text) :
    ∃ digits, text = announcement m.binary digits (!m.synchronising) ∧ digits ≠ []
      ∧ (∀ b ∈ digits, Byte.isDigit b) ∧ Decimal.value digits = m.length := by
  obtain ⟨tail, @⟨digits, hread⟩, rfl⟩ := h
  obtain ⟨hne, hdigits, hvalue, -⟩ := Decimal.read?_eq_some_iff.1 hread
  refine ⟨digits, ?_, hne, hdigits, hvalue⟩
  unfold announcement LiteralMarker.opening
  cases m.binary <;> cases m.synchronising <;> rfl

/-- A whole atom is taken as one lexeme. -/
theorem IsAtom.spells {text rest : Bytes} (h : IsAtom text rest) (maxLiteral : Nat) :
    (Lexeme.item (.ofWord text) false).Spells maxLiteral text rest.head? := by
  obtain ⟨b, more, rfl, hb⟩ := h.ends
  refine .atom h.bytes h.ne_nil ?_ ?_
  · intro c hc
    obtain rfl := Option.some.inj hc
    exact hb
  · rintro ⟨rfl, hbrace⟩
    obtain rfl := Option.some.inj hbrace
    exact h.noMarker ⟨more, rfl⟩

/-- What is taken as an atom before something else is a whole atom. -/
theorem isAtom_of_atomText {text rest : Bytes} (h : AtomText text) (hne : text ≠ [])
    (hstop : StopsAtom rest.head?)
    (hmarker : ¬(text = [Byte.tilde] ∧ rest.head? = some Byte.openBrace)) (hrest : rest ≠ []) :
    IsAtom text rest := by
  obtain ⟨b, more, rfl⟩ := List.exists_cons_of_ne_nil hrest
  refine ⟨h, hne, ⟨b, more, rfl, hstop b rfl⟩, ?_⟩
  rintro ⟨after, hafter⟩
  have hbegin := Lexeme.begin?_of_atomText h hne hmarker
  exact LiteralMarker.begin?_eq_none_iff.1 hbegin true after hafter.symm

/-- An item that is taken as one lexeme before something else is an element. -/
theorem element_of_spells {maxLiteral : Nat} {x : Item} {waited : Bool} {text rest : Bytes}
    (h : (Lexeme.item x waited).Spells maxLiteral text rest.head?) (hrest : rest ≠ []) :
    Element maxLiteral text x waited.toNat rest := by
  cases h with
  | quoted h => exact .quoted h
  | @literal _ m _ data htext hfit hdata _ =>
    obtain ⟨digits, rfl, hne, hdigits, hvalue⟩ := exists_announcement htext
    have hwaits : m.synchronising.toNat = if !m.synchronising then 0 else 1 := by
      cases m.synchronising <;> rfl
    rw [hwaits]
    exact .literal hne hdigits (hvalue.trans hdata.symm) (hdata ▸ hfit)
  | atom h hne hstop hmarker =>
    have hatom := isAtom_of_atomText h hne hstop hmarker hrest
    rw [Item.ofWord]
    split
    · next hnil => exact .nil hatom hnil
    · next hnil => exact .atom hatom (by simpa using hnil)

/-! ## What derives items is read -/

section
variable {maxLiteral : Nat}

mutual

/-- An element is read into the innermost open list. -/
theorem run_element (hmax : maxLiteral < Decimal.limit) {text rest : Bytes} {x : Item} {k : Nat}
    (h : Element maxLiteral text x k rest) (hrest : rest ≠ []) (nest : Nest) (waits : Nat) :
    Scan.run maxLiteral nest waits (text ++ rest)
      = Scan.run maxLiteral (nest.push x) (waits + k) rest := by
  match h with
  | .list hitems =>
    rw [List.cons_append, run_openParen, List.append_assoc, List.singleton_append,
      run_elements hmax hitems (List.cons_ne_nil _ _), run_closeParen (nest.closeList?_pushAll _)]
  | .quoted htext => exact Scan.run_of_spells (.quoted htext)
  | @Element.literal _ binary plus digits data _ hne hdigits hlength hfit =>
    have hannounces := announces_announcement hne hdigits
      (Nat.lt_of_le_of_lt (hlength ▸ hfit) hmax) binary plus
    have hwaits : (if plus then 0 else 1) = (!plus).toNat := by cases plus <;> rfl
    rw [List.append_assoc, hwaits]
    exact Scan.run_of_literal hannounces (hlength ▸ hfit) hlength.symm
      (List.append_ne_nil_of_right_ne_nil data hrest)
  | .nil hatom hnil =>
    have hword : Item.ofWord text = .nil := if_pos hnil
    rw [Scan.run_of_spells (hatom.spells maxLiteral), Scan.after, hword]
    rfl
  | .atom hatom hnil =>
    have hword : Item.ofWord text = .atom text := if_neg (by rw [hnil]; exact Bool.false_ne_true)
    rw [Scan.run_of_spells (hatom.spells maxLiteral), Scan.after, hword]
    rfl

/-- Elements are read in order into the innermost open list. -/
theorem run_elements (hmax : maxLiteral < Decimal.limit) {text rest : Bytes} {items : List Item}
    {k : Nat} (h : Elements maxLiteral text items k rest) (hrest : rest ≠ []) (nest : Nest)
    (waits : Nat) :
    Scan.run maxLiteral nest waits (text ++ rest)
      = Scan.run maxLiteral (nest.pushAll items) (waits + k) rest := by
  match h with
  | .nil => rfl
  | .space hitems =>
    rw [List.cons_append, run_space, run_elements hmax hitems hrest]
  | .cons hx hitems =>
    rw [List.append_assoc,
      run_element hmax hx (List.append_ne_nil_of_right_ne_nil _ hrest),
      run_elements hmax hitems hrest, Nest.pushAll_cons, Nat.add_assoc]

end

/-! ## What has been read derives items -/

/-- What comes behind the elements of a list, or of a whole line. -/
inductive Ends : Bytes → Prop
  | closeParen (rest : Bytes) : Ends (Byte.closeParen :: rest)
  | crlf (rest : Bytes) : Ends (Bytes.crlf ++ rest)

theorem Ends.ne_nil {s : Bytes} (h : Ends s) : s ≠ [] := by
  cases h with
  | closeParen => exact List.cons_ne_nil _ _
  | crlf => exact List.cons_ne_nil _ _

/-- A line end inside of a list is refused. -/
theorem run_crlf_openList (nest : Nest) (xs : List Item) (waits : Nat) (t : Bytes) :
    Scan.run maxLiteral (nest.openList.pushAll xs) waits (Bytes.crlf ++ t)
      = .error .unclosedParenthesis := by
  rw [Scan.run_of_spells .lineEnd]
  rfl

/-- A closing parenthesis outside of all lists is refused. -/
theorem run_closeParen_empty (xs : List Item) (waits : Nat) (t : Bytes) :
    Scan.run maxLiteral (Nest.empty.pushAll xs) waits (Byte.closeParen :: t)
      = .error .unopenedParenthesis := by
  have hrun : Scan.run maxLiteral (Nest.empty.pushAll xs) waits ([Byte.closeParen] ++ t)
      = Scan.after maxLiteral (Nest.empty.pushAll xs) waits .closeList t :=
    Scan.run_of_spells .closeList
  exact hrun

/-- What is read up to the end of its line begins with elements for the innermost open list, and
behind them that list ends, or the line. -/
theorem elements_of_run {nest : Nest} {waits waits' : Nat} {s left : Bytes} {items : List Item}
    (h : Scan.run maxLiteral nest waits s = .ok (.complete items waits' left)) :
    ∃ text xs k rest, s = text ++ rest ∧ Elements maxLiteral text xs k rest ∧ Ends rest
      ∧ Scan.run maxLiteral (nest.pushAll xs) (waits + k) rest
        = .ok (.complete items waits' left) := by
  -- by length: behind an inner list the reading goes on with what that list has left
  induction hn : s.length using Nat.strong_induction_on generalizing nest waits s with
  | _ n ih =>
  cases s with
  | nil =>
    rw [Scan.run_nil] at h
    cases h
  | cons b s =>
    rw [Scan.run_cons] at h
    rcases hfirst : Lexeme.first maxLiteral b s with ⟨lexeme, tail⟩ | needs | fault
    · rw [hfirst] at h
      obtain ⟨text, hs, hspells⟩ := Lexeme.first_eq_found_iff.1 hfirst
      have hlt : tail.length < n := by
        rw [← hn]
        exact Nat.lt_succ_of_le (suffix_of_first hfirst).length_le
      rw [hs]
      cases lexeme with
      | blank =>
        cases hspells
        obtain ⟨text, xs, k, rest, rfl, hxs, hends, hrun⟩ := ih _ hlt h rfl
        exact ⟨Byte.space :: text, xs, k, rest, rfl, .space hxs, hends, hrun⟩
      | lineEnd =>
        cases hspells
        refine ⟨[], [], 0, Bytes.crlf ++ tail, rfl, .nil, .crlf tail, ?_⟩
        rw [Scan.run_of_spells .lineEnd]
        exact h
      | openList =>
        cases hspells
        obtain ⟨inner, xs, j, rest, rfl, hxs, hends, hrun⟩ := ih _ hlt h rfl
        cases hends with
        | crlf rest =>
          rw [run_crlf_openList] at hrun
          cases hrun
        | closeParen rest =>
          -- the inner list is one element, and the reading goes on behind it
          rw [run_closeParen (nest.closeList?_pushAll xs)] at hrun
          have hlt' : rest.length < n := by
            rw [List.length_append, List.length_cons] at hlt
            omega
          obtain ⟨more, ys, k, rest', rfl, hys, hends', hrun'⟩ := ih _ hlt' hrun rfl
          refine ⟨Byte.openParen :: (inner ++ [Byte.closeParen]) ++ more, .list xs :: ys, j + k,
            rest', by simp, .cons (.list hxs) hys, hends', ?_⟩
          rw [Nest.pushAll_cons, ← Nat.add_assoc]
          exact hrun'
      | closeList =>
        cases hspells
        refine ⟨[], [], 0, Byte.closeParen :: tail, rfl, .nil, .closeParen tail, ?_⟩
        have hrun : Scan.run maxLiteral nest waits ([Byte.closeParen] ++ tail)
            = Scan.after maxLiteral nest waits .closeList tail := Scan.run_of_spells .closeList
        exact hrun.trans h
      | item x waited =>
        obtain ⟨more, xs, k, rest, rfl, hxs, hends, hrun⟩ := ih _ hlt h rfl
        have hx := element_of_spells hspells (List.append_ne_nil_of_right_ne_nil _ hends.ne_nil)
        refine ⟨text ++ more, x :: xs, waited.toNat + k, rest, by simp, .cons hx hxs, hends, ?_⟩
        rw [Nest.pushAll_cons, ← Nat.add_assoc]
        exact hrun
    · rw [hfirst] at h
      cases h
    · rw [hfirst] at h
      cases h

/-- A logical line that is read is made of elements and a line end. -/
theorem elements_of_parse {s rest : Bytes} {items : List Item} {waits : Nat}
    (h : Item.parse maxLiteral s = .ok (.complete items waits rest)) :
    ∃ text, s = text ++ (Bytes.crlf ++ rest)
      ∧ Elements maxLiteral text items waits (Bytes.crlf ++ rest) := by
  obtain ⟨text, xs, k, left, rfl, hxs, hends, hrun⟩ := elements_of_run h
  cases hends with
  | closeParen left =>
    rw [run_closeParen_empty] at hrun
    cases hrun
  | crlf left =>
    rw [run_crlf (Nest.items?_pushAll xs), Nat.zero_add] at hrun
    obtain ⟨rfl, rfl, rfl⟩ := by simpa only [Except.ok.injEq, Scan.complete.injEq] using hrun
    exact ⟨text, rfl, hxs⟩

end

/-! ## The reader and the grammar -/

/-- Exactly the logical lines that are derived are read, and they give the items that they
derive. -/
theorem parse_eq_complete_iff {maxLiteral : Nat} (hmax : maxLiteral < Decimal.limit)
    {s rest : Bytes} {items : List Item} {waits : Nat} :
    Item.parse maxLiteral s = .ok (.complete items waits rest)
      ↔ ∃ text, s = text ++ (Bytes.crlf ++ rest)
        ∧ Elements maxLiteral text items waits (Bytes.crlf ++ rest) := by
  constructor
  · exact elements_of_parse
  · rintro ⟨text, rfl, hitems⟩
    rw [Item.parse, run_elements hmax hitems (List.cons_ne_nil _ _),
      run_crlf (Nest.items?_pushAll items), Nat.zero_add]

/-- A string begins with one derived line at most, and that derives items in one way only. -/
theorem Elements.unique {maxLiteral : Nat} (hmax : maxLiteral < Decimal.limit)
    {text text' rest rest' : Bytes} {items items' : List Item} {waits waits' : Nat}
    (h : Elements maxLiteral text items waits (Bytes.crlf ++ rest))
    (h' : Elements maxLiteral text' items' waits' (Bytes.crlf ++ rest'))
    (hs : text ++ (Bytes.crlf ++ rest) = text' ++ (Bytes.crlf ++ rest')) :
    items = items' ∧ waits = waits' ∧ rest = rest' := by
  have hread := (parse_eq_complete_iff hmax).2 ⟨text, rfl, h⟩
  have hread' := (parse_eq_complete_iff hmax).2 ⟨text', hs, h'⟩
  rw [hread] at hread'
  simpa only [Except.ok.injEq, Scan.complete.injEq] using hread'

theorem map_placed_eq_complete_iff {s : Bytes} {result : Except Fault Scan} {items : List Item}
    {waits stop : Nat} :
    result.map (Scan.placed s) = .ok (.complete items waits stop)
      ↔ ∃ rest, result = .ok (.complete items waits rest) ∧ s.length - rest.length = stop := by
  constructor
  · intro h
    rcases result with fault | ⟨items', waits', rest⟩ | needs
    · cases h
    · obtain ⟨rfl, rfl, hstop⟩ := PlacedScan.complete.inj (Except.ok.inj h)
      exact ⟨rest, rfl, hstop⟩
    · cases h
  · rintro ⟨rest, rfl, rfl⟩
    rfl

/-- From a place of a fragment on, a part of it is read as items exactly if the grammar derives
them from it in front of its line end. This holds up to the greatest length that a literal can
have. -/
theorem placed_parse_eq_complete_iff (maxLiteral : UInt64) (fragment : Bytes)
    (start stop waits : Nat) (items : List Item) :
    (Item.parse maxLiteral.toNat (fragment.drop start)).map (Scan.placed fragment)
        = .ok (.complete items waits stop)
      ↔ ∃ text, fragment.slice? start stop = some (text ++ Bytes.crlf)
        ∧ Elements maxLiteral.toNat text items waits (Bytes.crlf ++ fragment.drop stop) := by
  have hmax : maxLiteral.toNat < Decimal.limit := maxLiteral.toNat_lt
  rw [map_placed_eq_complete_iff]
  constructor
  · rintro ⟨rest, hparse, rfl⟩
    obtain ⟨text, hdrop, hitems⟩ := elements_of_parse hparse
    -- what is left of the fragment begins at the place that is told
    have hsuffix : rest <:+ fragment := by
      refine List.IsSuffix.trans ⟨text ++ Bytes.crlf, ?_⟩ (List.drop_suffix start fragment)
      rw [hdrop, List.append_assoc]
    have hrest := (At.of_suffix hsuffix).drop
    refine ⟨text, Bytes.slice?_eq_some_iff.2 ⟨?_, ?_, Nat.sub_le _ _⟩, ?_⟩
    · rw [hrest, hdrop, List.append_assoc]
    · have hlength := congrArg List.length hdrop
      simp only [List.length_drop, List.length_append] at hlength ⊢
      have : 0 < Bytes.crlf.length := by decide
      omega
    · rw [hrest]
      exact hitems
  · rintro ⟨text, hslice, hitems⟩
    obtain ⟨hdrop, -, hstop⟩ := Bytes.slice?_eq_some_iff.1 hslice
    rw [List.append_assoc] at hdrop
    refine ⟨fragment.drop stop, (parse_eq_complete_iff hmax).2 ⟨text, hdrop, hitems⟩, ?_⟩
    rw [List.length_drop]
    omega

end MailProtocol.Imap
