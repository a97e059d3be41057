import MailProtocol.Proofs.Places.Lexeme

/-!
# The two readers of markers

A marker is looked for at the end of a line (`LiteralMarker.atEnd?`), and it is read from its place
on (`LiteralMarker.read`). The first reader goes backwards from the closing brace, and finds what a
pattern that is tied to the end of the line captures (`LiteralMarker.FirstMatch`). The second goes
forwards through the digits. They agree because the brace before the digits is the last one of the
line (`LiteralMarker.braced_append_inj`), so it makes no difference at which place one begins
(`LiteralMarker.readersAgree`).
-/

namespace MailProtocol.Imap.LiteralMarker

open Decimal (IsNumeral)

variable {line before before' digits digits' after : Bytes} {binary plus plus' : Bool}
  {ix ix' n : Nat}

/-! ## The text of a marker -/

/-- What stands behind the opening brace of a marker, up to its closing brace. -/
def closing (digits : Bytes) (plus : Bool) : Bytes :=
  digits ++ ((if plus then [Byte.plus] else []) ++ [Byte.closeBrace])

/-- A marker without its line end. -/
def text (digits : Bytes) (binary plus : Bool) : Bytes := opening binary ++ closing digits plus

theorem text_eq_append_braced (digits : Bytes) (binary plus : Bool) :
    text digits binary plus = (if binary then [Byte.tilde] else []) ++ braced digits plus := by
  cases binary <;> rfl

theorem tail_iff {m : LiteralMarker} {t : Bytes} : m.Tail t
    ↔ ∃ digits, Decimal.read? digits = some m.length
      ∧ t = closing digits (!m.synchronising) ++ Bytes.crlf := by
  have htail (digits : Bytes) : closing digits (!m.synchronising) ++ Bytes.crlf = digits
      ++ ((if m.synchronising then [] else [Byte.plus]) ++ Byte.closeBrace :: Bytes.crlf) := by
    cases m.synchronising <;> simp [closing]
  constructor
  · rintro @⟨digits, h⟩
    exact ⟨digits, h, (htail digits).symm⟩
  · rintro ⟨digits, h, rfl⟩
    rw [htail]
    exact .mk h

/-- Behind its opening brace a marker has no other one. -/
theorem openBrace_notMem_closing (h : ∀ b ∈ digits, Byte.isDigit b = true) (plus : Bool) :
    Byte.openBrace ∉ closing digits plus := by
  rw [closing, List.mem_append, not_or]
  refine ⟨fun hmem => absurd (h _ hmem) (by decide), ?_⟩
  cases plus <;> decide

/-- The digits of a marker go as far as there are digits. -/
theorem takeWhile_closing_append (h : ∀ b ∈ digits, Byte.isDigit b = true) (plus : Bool)
    (s : Bytes) : (closing digits plus ++ s).takeWhile Byte.isDigit = digits := by
  rw [closing, List.append_assoc, List.takeWhile_append_of_pos h]
  cases plus with
  | false => exact List.append_nil digits
  | true => exact List.append_nil digits

theorem closing_inj (h : ∀ b ∈ digits, Byte.isDigit b = true)
    (h' : ∀ b ∈ digits', Byte.isDigit b = true)
    (heq : closing digits plus = closing digits' plus') : digits = digits' ∧ plus = plus' := by
  obtain rfl : digits = digits' := by
    rw [← takeWhile_closing_append h plus [], heq, takeWhile_closing_append h']
  refine ⟨rfl, ?_⟩
  have hlength := congrArg List.length heq
  cases plus <;> cases plus' <;> simp [closing] at hlength ⊢

/-- The brace before the digits is the last one, so a string ends in one marker at most. -/
theorem braced_append_inj (h : ∀ b ∈ digits, Byte.isDigit b = true)
    (h' : ∀ b ∈ digits', Byte.isDigit b = true)
    (heq : before ++ braced digits plus = before' ++ braced digits' plus') :
    digits = digits' ∧ plus = plus' := by
  have hnil {d d' z : Bytes} {p p' : Bool} (hd : ∀ b ∈ d, Byte.isDigit b = true)
      (hz : braced d p = z ++ braced d' p') : z = [] := by
    rcases List.cons_eq_append_iff.1 hz with ⟨hnil, -⟩ | ⟨z, -, hclosing⟩
    · exact hnil
    · refine absurd ?_ (openBrace_notMem_closing hd p)
      rw [closing, hclosing]
      exact List.mem_append_right z List.mem_cons_self
  rcases List.append_eq_append_iff.1 heq with ⟨z, -, hz⟩ | ⟨z, -, hz⟩
  · obtain rfl := hnil h hz
    exact closing_inj h h' (List.cons.inj hz).2
  · obtain rfl := hnil h' hz
    exact closing_inj h h' (List.cons.inj hz).2.symm

/-! ## The end of a line -/

/-- The length of the marker at the end of a line, and whether the marker has a plus sign. -/
def lengthAtEnd? (line : Bytes) : Option (Nat × Bool) :=
  (atEnd? line).map fun m => (m.length, !m.synchronising)

theorem lengthAtEnd?_eq_some_iff : lengthAtEnd? line = some (n, plus)
    ↔ ∃ before digits, line = before ++ braced digits plus ∧ IsNumeral digits n ∧ n < 2 ^ 64 := by
  rw [lengthAtEnd?, Option.map_eq_some_iff]
  constructor
  · rintro ⟨m, hm, heq⟩
    obtain ⟨rfl, rfl⟩ := Prod.mk.inj heq
    obtain ⟨before, digits, hline, -, hread, -⟩ := atEnd?_eq_some_iff.1 hm
    exact ⟨before, digits, hline, Decimal.read?_eq_some_iff_isNumeral.1 hread⟩
  · rintro ⟨before, digits, rfl, hnumeral, hn⟩
    refine ⟨⟨n, before.getLast? == some Byte.tilde, !plus⟩, atEnd?_eq_some_iff.2 ?_, ?_⟩
    · refine ⟨before, digits, ?_, hnumeral.isDigit, ?_, rfl⟩
      · rw [Bool.not_not]
      · exact Decimal.read?_eq_some_iff_isNumeral.2 ⟨hnumeral, hn⟩
    · rw [Bool.not_not]

/-- Where a marker stands up to the end of the line, the line ends in braces. -/
theorem exists_braced_of_drop (h : line.drop ix = text digits binary plus) :
    ∃ before, line = before ++ braced digits plus := by
  refine ⟨line.take ix ++ if binary then [Byte.tilde] else [], ?_⟩
  rw [List.append_assoc, ← text_eq_append_braced, ← h, List.take_append_drop]

/-! ## The pattern -/

/-- The pattern `~?\{([0-9]+)(\+?)\}$` matches from a place of the line on, with these digits, and
with a plus sign or without. -/
structure Matches (line : Bytes) (ix : Nat) (digits : Bytes) (plus : Bool) : Prop where
  ne_nil : digits ≠ []
  isDigit : ∀ b ∈ digits, Byte.isDigit b = true
  drop : ∃ binary, line.drop ix = text digits binary plus

/-- Wherever the pattern matches, it does so with the same digits. -/
theorem Matches.unique (h : Matches line ix digits plus) (h' : Matches line ix' digits' plus') :
    digits = digits' ∧ plus = plus' := by
  obtain ⟨binary, hdrop⟩ := h.drop
  obtain ⟨binary', hdrop'⟩ := h'.drop
  obtain ⟨before, hline⟩ := exists_braced_of_drop hdrop
  obtain ⟨before', hline'⟩ := exists_braced_of_drop hdrop'
  exact braced_append_inj h.isDigit h'.isDigit (hline.symm.trans hline')

/-- The first match of the pattern: at no place before it is there another one. -/
structure FirstMatch (line : Bytes) (ix : Nat) (digits : Bytes) (plus : Bool) : Prop extends
    Matches line ix digits plus where
  first : ∀ ix' < ix, ∀ digits' plus', ¬Matches line ix' digits' plus'

theorem Matches.exists_firstMatch (h : Matches line ix digits plus) :
    ∃ ix', FirstMatch line ix' digits plus := by
  classical
  have hsome : ∃ i, ∃ d p, Matches line i d p := ⟨ix, digits, plus, h⟩
  obtain ⟨d, p, hfound⟩ := Nat.find_spec hsome
  obtain ⟨rfl, rfl⟩ := hfound.unique h
  exact ⟨Nat.find hsome, hfound, fun i hi d' p' hm => Nat.find_min hsome hi ⟨d', p', hm⟩⟩

/-- What is found at the end of a line is what the first match of the pattern captures. -/
theorem lengthAtEnd?_eq_some_iff_firstMatch : lengthAtEnd? line = some (n, plus)
    ↔ ∃ ix digits, FirstMatch line ix digits plus ∧ IsNumeral digits n ∧ n < 2 ^ 64 := by
  rw [lengthAtEnd?_eq_some_iff]
  constructor
  · rintro ⟨before, digits, rfl, hnumeral, hn⟩
    have hmatches : Matches (before ++ braced digits plus) before.length digits plus :=
      ⟨hnumeral.ne_nil, hnumeral.isDigit, false, List.drop_left⟩
    obtain ⟨ix, hfirst⟩ := hmatches.exists_firstMatch
    exact ⟨ix, digits, hfirst, hnumeral, hn⟩
  · rintro ⟨ix, digits, hfirst, hnumeral, hn⟩
    obtain ⟨binary, hdrop⟩ := hfirst.drop
    obtain ⟨before, hline⟩ := exists_braced_of_drop hdrop
    exact ⟨before, digits, hline, hnumeral, hn⟩

/-! ## Reading on from a place -/

/-- A marker begins at a place of the line, and from there it is read up to the end of the line,
with this length, and with a plus sign or without. -/
def ReadsToEnd (line : Bytes) (ix n : Nat) (plus : Bool) : Prop :=
  beginsAt line ix = .ok true ∧ ∃ binary,
    readAt (line ++ Bytes.crlf) ix = .ok (.ok (⟨n, binary, !plus⟩, line.length + 2))

theorem beginsAt_eq_true_iff {s : Bytes} :
    beginsAt s ix = .ok true ↔ ∃ binary after, At s ix (opening binary ++ after) := by
  constructor
  · intro h
    rcases hdrop : s.drop ix with _ | ⟨b, t⟩
    · have hnone : s[ix]? = none := List.getElem?_eq_none (List.drop_eq_nil_iff.1 hdrop)
      rw [beginsAt, Bytes.byteAt, hnone] at h
      cases h
    · have hat : At s ix (b :: t) := .of_drop hdrop (List.cons_ne_nil b t)
      rw [beginsAt_eq hat, Except.ok.injEq, Option.isSome_iff_exists] at h
      obtain ⟨⟨binary, after⟩, hbegin⟩ := h
      exact ⟨binary, after, begin?_eq_some_iff.1 hbegin ▸ hat⟩
  · rintro ⟨binary, after, hat⟩
    cases binary with
    | false => exact beginsAt_eq hat
    | true => exact beginsAt_eq hat

/-- What is read behind an opening brace is read from the place of the marker on, whatever has been
put behind the string. -/
theorem readAt_opening (h : At line ix (opening binary ++ after)) (w : Bytes) :
    readAt (line ++ w) ix = .ok ((read binary (after ++ w)).map (line ++ w).placed) := by
  have hat := h.append_right w
  rw [List.append_assoc] at hat
  cases binary with
  | false => exact readAt_eq hat rfl
  | true => exact readAt_eq hat rfl

theorem readAt_of_read (h : At line ix (opening binary ++ after))
    (hread : read binary (after ++ Bytes.crlf) = .ok (⟨n, binary, !plus⟩, [])) :
    readAt (line ++ Bytes.crlf) ix = .ok (.ok (⟨n, binary, !plus⟩, line.length + 2)) := by
  rw [readAt_opening h, hread]
  show Except.ok (Except.ok (_, (line ++ Bytes.crlf).length - 0)) = _
  rw [List.length_append]
  rfl

/-- By places a marker is read up to the end of the line if from the front nothing is left. -/
theorem readsToEnd_iff_read : ReadsToEnd line ix n plus
    ↔ ∃ binary after, begin? (line.drop ix) = some (binary, after)
      ∧ read binary (after ++ Bytes.crlf) = .ok (⟨n, binary, !plus⟩, []) := by
  constructor
  · rintro ⟨hbegins, binary', hread⟩
    obtain ⟨binary, after, hat⟩ := beginsAt_eq_true_iff.1 hbegins
    refine ⟨binary, after, begin?_eq_some_iff.2 hat.drop, ?_⟩
    rw [readAt_opening hat, Except.ok.injEq] at hread
    rcases hresult : read binary (after ++ Bytes.crlf) with fault | ⟨m, rest⟩
    · rw [hresult] at hread
      cases hread
    · rw [hresult] at hread
      obtain ⟨rfl, hplace⟩ := Prod.mk.inj (Except.ok.inj hread)
      obtain rfl : binary' = binary := (read_eq_ok_iff.1 hresult).1
      obtain rfl : rest = [] := by
        have hleft : (line ++ Bytes.crlf).length - rest.length = line.length + 2 := hplace
        have hlength : (line ++ Bytes.crlf).length = line.length + 2 := List.length_append
        rw [← List.length_eq_zero_iff]
        omega
      rfl
  · rintro ⟨binary, after, hbegin, hread⟩
    have hat : At line ix (opening binary ++ after) := by
      refine .of_drop (begin?_eq_some_iff.1 hbegin) ?_
      cases binary <;> exact List.cons_ne_nil _ _
    exact ⟨beginsAt_eq_true_iff.2 ⟨binary, after, hat⟩, binary, readAt_of_read hat hread⟩

theorem read_closing_iff : read binary (after ++ Bytes.crlf) = .ok (⟨n, binary, !plus⟩, [])
    ↔ ∃ digits, after = closing digits plus ∧ IsNumeral digits n ∧ n < 2 ^ 64 := by
  rw [read_eq_ok_iff]
  simp only [tail_iff, Bool.not_not, List.append_nil, true_and]
  constructor
  · rintro ⟨t, rfl, digits, hread, heq⟩
    exact ⟨digits, List.append_cancel_right heq, Decimal.read?_eq_some_iff_isNumeral.1 hread⟩
  · rintro ⟨digits, rfl, hdigits⟩
    exact ⟨_, rfl, digits, Decimal.read?_eq_some_iff_isNumeral.2 hdigits, rfl⟩

theorem readsToEnd_iff : ReadsToEnd line ix n plus ↔ ∃ digits binary,
    line.drop ix = text digits binary plus ∧ IsNumeral digits n ∧ n < 2 ^ 64 := by
  simp only [readsToEnd_iff_read, begin?_eq_some_iff, read_closing_iff]
  constructor
  · rintro ⟨binary, after, hdrop, digits, rfl, hdigits⟩
    exact ⟨digits, binary, hdrop, hdigits⟩
  · rintro ⟨digits, binary, hdrop, hdigits⟩
    exact ⟨binary, _, hdrop, digits, rfl, hdigits⟩

/-- A marker is found at the end just if one that begins somewhere is read up to the end. -/
theorem lengthAtEnd?_eq_some_iff_readsToEnd :
    lengthAtEnd? line = some (n, plus) ↔ ∃ ix, ReadsToEnd line ix n plus := by
  rw [lengthAtEnd?_eq_some_iff]
  simp only [readsToEnd_iff]
  constructor
  · rintro ⟨before, digits, rfl, hdigits⟩
    exact ⟨before.length, digits, false, List.drop_left, hdigits⟩
  · rintro ⟨ix, digits, binary, hdrop, hdigits⟩
    obtain ⟨before, hline⟩ := exists_braced_of_drop hdrop
    exact ⟨before, digits, hline, hdigits⟩

/-! ## The limit -/

/-- Digits that stand for too large a number are refused before what is behind them is looked at. -/
theorem read_closing_overflow (h : IsNumeral digits n) (hn : 2 ^ 64 ≤ n) (s : Bytes) :
    read binary (closing digits plus ++ s) = .error .literalLengthOverflow := by
  have hnone : Decimal.read? digits = none :=
    Decimal.read?_eq_none_iff.2 fun m hm => hm.unique h ▸ hn
  unfold read
  simp only [takeWhile_closing_append h.isDigit, hnone]
  rw [if_neg (mt List.isEmpty_iff.1 h.ne_nil)]

theorem lengthAtEnd?_eq_none (h : IsNumeral digits n) (hn : 2 ^ 64 ≤ n) (before : Bytes) :
    lengthAtEnd? (before ++ braced digits plus) = none := by
  rw [Option.eq_none_iff_forall_ne_some]
  rintro ⟨m, plus'⟩ hsome
  obtain ⟨before', digits', heq, hnumeral, hm⟩ := lengthAtEnd?_eq_some_iff.1 hsome
  obtain ⟨rfl, -⟩ := braced_append_inj h.isDigit hnumeral.isDigit heq
  exact absurd hn (Nat.not_le.2 (h.unique hnumeral ▸ hm))

/-- The two readers of markers agree about a line. -/
structure ReadersAgree (line : Bytes) : Prop where
  /-- What is found at the end of the line is what the first match of the pattern captures. -/
  captured : ∀ n plus, lengthAtEnd? line = some (n, plus)
    ↔ ∃ ix digits, FirstMatch line ix digits plus ∧ IsNumeral digits n ∧ n < 2 ^ 64
  /-- It is found just if a marker that begins at some place is read up to the end. -/
  found : ∀ n plus, lengthAtEnd? line = some (n, plus) ↔ ∃ ix, ReadsToEnd line ix n plus
  /-- By places and from the front the same is read. -/
  front : ∀ ix n plus, ReadsToEnd line ix n plus
    ↔ ∃ binary after, begin? (line.drop ix) = some (binary, after)
      ∧ read binary (after ++ Bytes.crlf) = .ok (⟨n, binary, !plus⟩, [])
  /-- Both take every length below the limit, whatever zeros it begins with. -/
  fits : ∀ before zeros digits binary plus n,
    line = before ++ text (List.replicate zeros 48 ++ digits) binary plus →
      IsNumeral digits n → n < 2 ^ 64 →
        lengthAtEnd? line = some (n, plus)
          ∧ readAt (line ++ Bytes.crlf) before.length
            = .ok (.ok (⟨n, binary, !plus⟩, line.length + 2))
  /-- Both refuse any other length. -/
  tooLarge : ∀ before digits binary plus n, line = before ++ text digits binary plus →
    IsNumeral digits n → 2 ^ 64 ≤ n →
      lengthAtEnd? line = none
        ∧ readAt (line ++ Bytes.crlf) before.length = .ok (.error .literalLengthOverflow)

/-- The two readers of markers agree about every line. -/
theorem readersAgree (line : Bytes) : ReadersAgree line where
  captured _ _ := lengthAtEnd?_eq_some_iff_firstMatch
  found _ _ := lengthAtEnd?_eq_some_iff_readsToEnd
  front _ _ _ := readsToEnd_iff_read
  fits := by
    rintro before zeros digits binary plus n rfl hnumeral hn
    have hzeros := hnumeral.replicate_append zeros
    have hat := At.of_append before (text (List.replicate zeros 48 ++ digits) binary plus)
    refine ⟨lengthAtEnd?_eq_some_iff_readsToEnd.2 ⟨before.length, ?_⟩, ?_⟩
    · exact readsToEnd_iff.2 ⟨_, binary, hat.drop, hzeros, hn⟩
    · exact readAt_of_read hat (read_closing_iff.2 ⟨_, rfl, hzeros, hn⟩)
  tooLarge := by
    rintro before digits binary plus n rfl hnumeral hn
    have hat := At.of_append before (text digits binary plus)
    refine ⟨?_, ?_⟩
    · rw [text_eq_append_braced, ← List.append_assoc]
      exact lengthAtEnd?_eq_none hnumeral hn _
    · rw [readAt_opening hat, read_closing_overflow hnumeral hn]
      rfl

/-- The largest length, with zeros in front, of a binary literal that is not waited for. -/
example : lengthAtEnd? (Bytes.ascii "a \x7b1\x7d ~\x7b0018446744073709551615+\x7d")
    = some (18446744073709551615, true) := by decide +kernel

end MailProtocol.Imap.LiteralMarker
