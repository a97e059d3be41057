import MailProtocol.Proofs.Imap.Marker
import MailProtocol.Proofs.Places.Basic

/-!
# Reading lexemes by places

Literal markers, quoted strings and atoms are read by places here. A reading goes on from an index
and finds what `Lexeme.first` finds in front of the end that begins there (`Lexeme.comes_firstAt`).

The one sum that can be too large is that of the place where a literal begins and its length. It
fits if the length of the fragment and the length of the longest literal together take no more than
64 bits (`Lexeme.comes_dataAt`).
-/

namespace MailProtocol.Imap

/-! ## Literal markers -/

namespace LiteralMarker

/-- Whether a marker begins at a place. -/
def beginsAt (s : Bytes) (ix : Nat) : Except Trap Bool := do
  let b ← s.byteAt ix
  return b == Byte.openBrace || b == Byte.tilde && s[ix + 1]? == some Byte.openBrace

/-- Close a marker: its brace, and the end of its line. -/
def closeAt (s : Bytes) (brace : Nat) (marker : LiteralMarker) :
    Except Fault (LiteralMarker × Nat) :=
  if s[brace]? ≠ some Byte.closeBrace then .error .invalidLiteralMarker
  else if s.slice? (brace + 1) (brace + 3) ≠ some Bytes.crlf then .error .dataAfterLiteralMarker
  else .ok (marker, brace + 3)

/-- Read on through the digits of the number that begins with `n`: the number, as long as it keeps
the limit, and the place behind its digits. -/
def lengthAt (s : Bytes) (ix n : Nat) : Except Trap (Option (Nat × Nat)) :=
  match _h : s[ix]? with
  | none => .ok (some (n, ix))
  | some b =>
    if Byte.isDigit b then do
      let digit ← Trap.sub b.toNat 48
      if 10 * n + digit < Decimal.limit then lengthAt s (ix + 1) (10 * n + digit)
      else return none
    else .ok (some (n, ix))
termination_by s.length - ix
decreasing_by
  have := (List.getElem?_eq_some_iff.1 _h).1
  omega

/-- Read on behind the opening brace of a marker. -/
def readFrom (binary : Bool) (s : Bytes) (start : Nat) :
    Except Trap (Except Fault (LiteralMarker × Nat)) := do
  match ← lengthAt s start 0 with
  | none => return .error .literalLengthOverflow
  | some (length, stop) =>
    if stop = start then return .error .invalidLiteralLength
    else if s[stop]? = some Byte.plus then return closeAt s (stop + 1) ⟨length, binary, false⟩
    else return closeAt s stop ⟨length, binary, true⟩

/-- Read the marker that begins at a place: the marker, and the place where its literal begins. -/
def readAt (s : Bytes) (ix : Nat) : Except Trap (Except Fault (LiteralMarker × Nat)) := do
  let binary := (← s.byteAt ix) == Byte.tilde
  readFrom binary s (if binary then ix + 2 else ix + 1)

variable {s t : Bytes} {ix : Nat} {b : UInt8}

theorem beginsAt_eq (h : At s ix (b :: t)) :
    beginsAt s ix = .ok (begin? (b :: t)).isSome := by
  have hbytes : (b == Byte.openBrace || b == Byte.tilde && t.head? == some Byte.openBrace)
      = (begin? (b :: t)).isSome := by
    unfold begin?
    split
    · next rest hbt =>
      obtain ⟨rfl, -⟩ := List.cons.inj hbt
      rfl
    · next rest hbt =>
      obtain ⟨rfl, rfl⟩ := List.cons.inj hbt
      rfl
    · next hbrace htilde =>
      have hb : b ≠ Byte.openBrace := by
        rintro rfl
        exact hbrace t rfl
      have ht : b = Byte.tilde → t.head? ≠ some Byte.openBrace := by
        rintro rfl hhead
        obtain ⟨u, rfl⟩ := List.head?_eq_some_iff.1 hhead
        exact htilde u rfl
      simpa [hb] using ht
  unfold beginsAt
  rw [h.byteAt_eq, h.tail.get, ← hbytes]
  rfl

/-- The end of a marker, and what follows its line. -/
def close (marker : LiteralMarker) (v : Bytes) : Except Fault (LiteralMarker × Bytes) :=
  match v with
  | Byte.closeBrace :: Byte.cr :: Byte.lf :: rest => .ok (marker, rest)
  | Byte.closeBrace :: _ => .error .dataAfterLiteralMarker
  | _ => .error .invalidLiteralMarker

theorem closeAt_eq (h : At s ix t) (marker : LiteralMarker) :
    closeAt s ix marker = (close marker t).map s.placed := by
  unfold close
  split
  · next rest =>
    have hrest : At s (ix + 3) rest := h.tail.tail.tail
    have hline : s.slice? (ix + 1) (ix + 3) = some Bytes.crlf := by
      rw [h.tail.slice? 2]
      rfl
    rw [closeAt, h.get, if_neg (by simp), if_neg (not_not_intro hline)]
    show _ = Except.ok (marker, s.length - rest.length)
    rw [hrest.place_eq]
  · next u hu =>
    -- fewer than two bytes may be left, and then there is no part to be compared
    have hline : s.slice? (ix + 1) (ix + 3) ≠ some Bytes.crlf := by
      rw [h.tail.slice? 2]
      intro hslice
      split at hslice
      · rw [← List.take_append_drop 2 u, Option.some.inj hslice] at hu
        exact hu (u.drop 2) rfl
      · cases hslice
    rw [closeAt, h.get, if_neg (by simp), if_pos hline]
    rfl
  · next hu hv =>
    have hbrace : t.head? ≠ some Byte.closeBrace := by
      intro hhead
      obtain ⟨u, rfl⟩ := List.head?_eq_some_iff.1 hhead
      exact hv u rfl
    rw [closeAt, h.get, if_pos hbrace]
    rfl

/-- Behind its digits a marker is closed, with a plus sign or without. -/
theorem read_eq_close {length : Nat}
    (hread : Decimal.read? (t.takeWhile Byte.isDigit) = some length) (binary : Bool) :
    read binary t = if (t.dropWhile Byte.isDigit).head? = some Byte.plus
      then close ⟨length, binary, false⟩ (t.dropWhile Byte.isDigit).tail
      else close ⟨length, binary, true⟩ (t.dropWhile Byte.isDigit) := by
  have hne := (Decimal.read?_eq_some_iff.1 hread).1
  unfold read
  rw [if_neg (by simpa using hne), hread]
  generalize t.dropWhile Byte.isDigit = u
  by_cases hplus : u.head? = some Byte.plus
  · obtain ⟨v, rfl⟩ := List.head?_eq_some_iff.1 hplus
    rfl
  · rw [if_neg hplus]
    exact congrArg (fun p : Bool × Bytes => close ⟨length, binary, p.1⟩ p.2) (plus_of_head? u hplus)

theorem lengthAt_cons (h : At s ix (b :: t)) (n : Nat) :
    lengthAt s ix n = if Byte.isDigit b then do
        let digit ← Trap.sub b.toNat 48
        if 10 * n + digit < Decimal.limit then lengthAt s (ix + 1) (10 * n + digit)
        else return none
      else .ok (some (n, ix)) := by
  rw [lengthAt]
  split
  · next hc =>
    rw [h.get] at hc
    cases hc
  · next c hc =>
    rw [h.get] at hc
    obtain rfl := Option.some.inj hc
    rfl

/-- The digits are read as a number one by one. -/
theorem lengthAt_eq (h : At s ix t) (n : Nat) :
    lengthAt s ix n = .ok (((t.takeWhile Byte.isDigit).foldlM Decimal.push? n).map
      (·, ix + (t.takeWhile Byte.isDigit).length)) := by
  induction t generalizing ix n with
  | nil =>
    rw [lengthAt]
    split
    · rfl
    · next c hc =>
      rw [h.get] at hc
      cases hc
  | cons b t ih =>
    rw [lengthAt_cons h]
    by_cases hb : Byte.isDigit b
    · have hge : 48 ≤ b.toNat := (Decimal.isDigit_iff.1 hb).1
      have hpush : Decimal.push? n b = if 10 * n + (b.toNat - 48) < Decimal.limit
          then some (10 * n + (b.toNat - 48)) else none := by
        rw [Decimal.push?, Decimal.digit?, if_pos hb]
        rfl
      rw [if_pos hb, Trap.sub_eq_ok hge, List.takeWhile_cons_of_pos hb, List.foldlM_cons, hpush]
      show (if 10 * n + (b.toNat - 48) < Decimal.limit then _ else _) = _
      by_cases hlimit : 10 * n + (b.toNat - 48) < Decimal.limit
      · rw [if_pos hlimit, if_pos hlimit, ih h.tail, List.length_cons, Nat.add_right_comm,
          Nat.add_assoc]
        rfl
      · rw [if_neg hlimit, if_neg hlimit]
        rfl
    · rw [if_neg hb, List.takeWhile_cons_of_neg hb]
      rfl

theorem readFrom_eq (h : At s ix t) (binary : Bool) :
    readFrom binary s ix = .ok ((read binary t).map s.placed) := by
  have hstop : At s (ix + (t.takeWhile Byte.isDigit).length) (t.dropWhile Byte.isDigit) := by
    apply At.append
    rwa [List.takeWhile_append_dropWhile]
  unfold readFrom
  rw [lengthAt_eq h]
  by_cases hempty : (t.takeWhile Byte.isDigit).isEmpty
  · have hnil := List.isEmpty_iff.1 hempty
    rw [read, if_pos hempty, hnil]
    show (if ix + 0 = ix then _ else _) = _
    rw [if_pos (Nat.add_zero ix)]
    rfl
  · have hnumber : (t.takeWhile Byte.isDigit).foldlM Decimal.push? 0
        = Decimal.read? (t.takeWhile Byte.isDigit) := (if_neg hempty).symm
    rw [hnumber]
    rcases hread : Decimal.read? (t.takeWhile Byte.isDigit) with _ | length
    · rw [read, if_neg hempty, hread]
      rfl
    · have hpos := mt List.isEmpty_iff_length_eq_zero.2 hempty
      rw [read_eq_close hread]
      show (if ix + (t.takeWhile Byte.isDigit).length = ix then _
        else if s[_]? = some Byte.plus then _ else _) = _
      rw [if_neg (by omega), hstop.get]
      generalize t.dropWhile Byte.isDigit = u at hstop
      by_cases hplus : u.head? = some Byte.plus
      · obtain ⟨v, rfl⟩ := List.head?_eq_some_iff.1 hplus
        exact congrArg Except.ok (closeAt_eq hstop.tail _)
      · rw [if_neg hplus, if_neg hplus]
        exact congrArg Except.ok (closeAt_eq hstop _)

/-- A marker is read where it begins. -/
theorem readAt_eq {after : Bytes} {binary : Bool} (h : At s ix (b :: t))
    (hbegin : begin? (b :: t) = some (binary, after)) :
    readAt s ix = .ok ((read binary after).map s.placed) := by
  unfold readAt
  rw [h.byteAt_eq]
  rw [begin?_eq_some_iff] at hbegin
  cases binary with
  | false =>
    obtain ⟨rfl, rfl⟩ := List.cons.inj hbegin
    exact readFrom_eq h.tail false
  | true =>
    obtain ⟨rfl, rfl⟩ := List.cons.inj hbegin
    exact readFrom_eq h.tail.tail true

end LiteralMarker

/-! ## Strings and atoms -/

/-- What has been read of a quoted string: a part of the fragment as long as nothing is escaped. -/
def contentAt (s : Bytes) (start pos : Nat) (unescaped : Option Bytes) : Except Trap Bytes :=
  match unescaped with
  | some content => .ok content
  | none => s.part start pos

/-- Read on in a quoted string that begins at `start`: its content, and the place behind it. -/
def quotedAt (s : Bytes) (start pos : Nat) (unescaped : Option Bytes) :
    Except Trap (Except Fault (Bytes × Nat)) :=
  match _h : s[pos]? with
  | none => .ok (.error .unterminatedQuoted)
  | some b =>
    if b = Byte.cr ∨ b = Byte.lf then .ok (.error .unterminatedQuoted)
    else if b = Byte.quote then do
      let content ← contentAt s start pos unescaped
      return .ok (content, pos + 1)
    else if b = Byte.backslash then
      match s[pos + 1]? with
      | none => .ok (.error .invalidEscape)
      | some e =>
        if e = Byte.quote ∨ e = Byte.backslash then do
          -- from the first escape on, the content is no part of the fragment any more
          let content ← contentAt s start pos unescaped
          quotedAt s start (pos + 2) (some (content ++ [e]))
        else .ok (.error .invalidEscape)
    else quotedAt s start (pos + 1) (unescaped.map (· ++ [b]))
termination_by s.length - pos
decreasing_by
  all_goals
    have := (List.getElem?_eq_some_iff.1 _h).1
    omega

section
variable {s t done : Bytes} {start pos : Nat} {b : UInt8} {unescaped : Option Bytes}

theorem quotedAt_nil (h : At s pos []) :
    quotedAt s start pos unescaped = .ok (.error .unterminatedQuoted) := by
  rw [quotedAt]
  split
  · rfl
  · next c hc =>
    rw [h.get] at hc
    cases hc

theorem quotedAt_cons (h : At s pos (b :: t)) :
    quotedAt s start pos unescaped =
      if b = Byte.cr ∨ b = Byte.lf then .ok (.error .unterminatedQuoted)
      else if b = Byte.quote then do
        let content ← contentAt s start pos unescaped
        return .ok (content, pos + 1)
      else if b = Byte.backslash then
        match t with
        | [] => .ok (.error .invalidEscape)
        | e :: _ =>
          if e = Byte.quote ∨ e = Byte.backslash then do
            let content ← contentAt s start pos unescaped
            quotedAt s start (pos + 2) (some (content ++ [e]))
          else .ok (.error .invalidEscape)
      else quotedAt s start (pos + 1) (unescaped.map (· ++ [b])) := by
  rw [quotedAt]
  split
  · next hc =>
    rw [h.get] at hc
    cases hc
  · next c hc =>
    rw [h.get] at hc
    obtain rfl := Option.some.inj hc
    rw [h.tail.get]
    cases t <;> rfl

/-- What has been read of a quoted string is kept apart, or it stands in the fragment as it is. -/
def Kept (s : Bytes) (start : Nat) (unescaped : Option Bytes) (done t : Bytes) : Prop :=
  unescaped.elim (At s start (done.reverse ++ t)) (· = done.reverse)

theorem Kept.contentAt_eq (hkept : Kept s start unescaped done t) (h : At s pos t) :
    contentAt s start pos unescaped = .ok done.reverse := by
  cases unescaped with
  | some content => exact congrArg Except.ok hkept
  | none =>
    obtain rfl : pos = start + done.reverse.length := by
      have := At.length_eq hkept
      have := h.length_eq
      simp only [List.length_append] at *
      omega
    exact At.part_eq hkept

theorem Kept.push (hkept : Kept s start unescaped done (b :: t)) :
    Kept s start (unescaped.map (· ++ [b])) (b :: done) t := by
  cases unescaped with
  | some content =>
    show content ++ [b] = _
    rw [show content = done.reverse from hkept, List.reverse_cons]
  | none =>
    show At s start _
    rw [List.reverse_cons, List.append_assoc]
    exact hkept

/-- A quoted string is read on where it goes on. -/
theorem quotedAt_eq (h : At s pos t) (hkept : Kept s start unescaped done t) :
    quotedAt s start pos unescaped = .ok ((readQuoted done t).map s.placed) := by
  -- along the reader from the front, which keeps in `done` what has been read
  fun_induction readQuoted done t generalizing pos unescaped with
  | case1 => exact quotedAt_nil h
  | case2 done b t hline =>
    rw [quotedAt_cons h, if_pos hline]
    rfl
  | case3 done t hline =>
    rw [quotedAt_cons h, if_neg hline, if_pos rfl, hkept.contentAt_eq h]
    show Except.ok (Except.ok (done.reverse, pos + 1)) = Except.ok (Except.ok (_, _))
    rw [h.tail.place_eq]
  | case4 done hline hquote =>
    rw [quotedAt_cons h, if_neg hline, if_neg hquote, if_pos rfl]
    rfl
  | case5 done e t he hline hquote ih =>
    rw [quotedAt_cons h, if_neg hline, if_neg hquote, if_pos rfl]
    show (if e = Byte.quote ∨ e = Byte.backslash then _ else _) = _
    rw [if_pos he, hkept.contentAt_eq h]
    exact ih h.tail.tail (by rw [Kept, Option.elim, List.reverse_cons])
  | case6 done e t he hline hquote =>
    rw [quotedAt_cons h, if_neg hline, if_neg hquote, if_pos rfl]
    show (if e = Byte.quote ∨ e = Byte.backslash then _ else _) = _
    rw [if_neg he]
    rfl
  | case7 done b t hline hquote hslash ih =>
    rw [quotedAt_cons h, if_neg hline, if_neg hquote, if_neg hslash]
    exact ih h.tail hkept.push

end

/-- A byte that ends a section of an atom, or its line. -/
def endsSection (b : UInt8) : Bool := b == Byte.closeBracket || b == Byte.cr || b == Byte.lf

/-- The place where an atom ends. -/
def atomStop (s : Bytes) (pos : Nat) : Except Trap (Except Fault Nat) :=
  match _h : s[pos]? with
  | none => .ok (.ok pos)
  | some b =>
    if endsAtom b then .ok (.ok pos)
    else if b = Byte.openBracket then do
      -- the search for the end of the section cuts off the rest of the fragment
      let _ ← s.partFrom pos
      match _hfind : s.find? endsSection pos with
      | none => .ok (.error .unclosedSection)
      | some close =>
        let c ← s.byteAt close
        if c = Byte.closeBracket then atomStop s (close + 1)
        else .ok (.error .unclosedSection)
    else atomStop s (pos + 1)
termination_by s.length - pos
decreasing_by
  all_goals have hpos := (List.getElem?_eq_some_iff.1 _h).1
  · have := Bytes.le_of_find? _hfind
    omega
  · omega

section
variable {s t done : Bytes} {pos : Nat} {b : UInt8}

theorem atomStop_nil (h : At s pos []) : atomStop s pos = .ok (.ok pos) := by
  rw [atomStop]
  split
  · rfl
  · next c hc =>
    rw [h.get] at hc
    cases hc

theorem atomStop_cons (h : At s pos (b :: t)) :
    atomStop s pos =
      if endsAtom b then .ok (.ok pos)
      else if b = Byte.openBracket then
        match s.find? endsSection pos with
        | none => .ok (.error .unclosedSection)
        | some close => do
          let c ← s.byteAt close
          if c = Byte.closeBracket then atomStop s (close + 1)
          else .ok (.error .unclosedSection)
      else atomStop s (pos + 1) := by
  rw [atomStop]
  split
  · next hc =>
    rw [h.get] at hc
    cases hc
  · next c hc =>
    rw [h.get] at hc
    obtain rfl := Option.some.inj hc
    rw [h.partFrom_eq]
    show (if endsAtom b then _ else if b = Byte.openBracket then _ else _) = _
    split
    · rfl
    · split
      · show (match _hfind : s.find? endsSection pos with | none => _ | some close => _) = _
        split
        · next hfind => simp only [hfind]
        · next close hfind => simp only [hfind]
      · rfl

theorem endsSection_openBracket {w : Bytes} (hw : ∀ c ∈ w, endsSection c = false) :
    ∀ c ∈ Byte.openBracket :: w, endsSection c = false := by
  intro c hc
  rcases List.mem_cons.1 hc with rfl | hc
  · rfl
  · exact hw c hc

theorem atomStop_unclosed (h : At s pos (Byte.openBracket :: t))
    (ht : ∀ c ∈ t, endsSection c = false) : atomStop s pos = .ok (.error .unclosedSection) := by
  rw [atomStop_cons h, if_neg (by decide), if_pos rfl, h.find?_eq_none (endsSection_openBracket ht)]

/-- The first byte that can end a section decides. -/
theorem atomStop_section {w : Bytes} {c : UInt8} (h : At s pos (Byte.openBracket :: (w ++ c :: t)))
    (hw : ∀ c ∈ w, endsSection c = false) (hc : endsSection c = true) :
    atomStop s pos = if c = Byte.closeBracket then atomStop s (pos + (w.length + 1) + 1)
      else .ok (.error .unclosedSection) := by
  have hopened : At s pos ((Byte.openBracket :: w) ++ c :: t) := h
  rw [atomStop_cons h, if_neg (by decide), if_pos rfl,
    hopened.find?_eq_some (endsSection_openBracket hw) hc]
  show (s.byteAt (pos + (Byte.openBracket :: w).length) >>= _) = _
  rw [hopened.append.byteAt_eq]
  rfl

/-- Inside of a section everything counts up to a byte that ends it. -/
theorem readAtom_section {w : Bytes} (hw : ∀ c ∈ w, endsSection c = false) (done t : Bytes) :
    readAtom true done (w ++ t) = readAtom true (w.reverse ++ done) t := by
  induction w generalizing done with
  | nil => rfl
  | cons b w ih =>
    obtain ⟨hb, hw⟩ := List.forall_mem_cons.1 hw
    have hstay : (b != Byte.closeBracket) = true ∧ ¬(b = Byte.cr ∨ b = Byte.lf) := by
      simpa [endsSection, not_or, and_assoc] using hb
    rw [List.cons_append, readAtom, if_pos rfl, if_neg hstay.2, hstay.1, ih hw]
    simp

/-- An atom is followed to its end where it goes on. -/
theorem atomStop_eq (h : At s pos t) (done : Bytes) :
    atomStop s pos = .ok (match readAtom false done t with
      | none => .error .unclosedSection
      | some (_, rest) => .ok (s.length - rest.length)) := by
  -- by the length of what is left, since a section is passed over at once
  induction hn : t.length using Nat.strong_induction_on generalizing pos t done with
  | _ n ih =>
  cases t with
  | nil =>
    rw [atomStop_nil h, ← h.place_eq]
    rfl
  | cons b t =>
    rw [readAtom, if_neg Bool.false_ne_true]
    by_cases hb : endsAtom b
    · rw [atomStop_cons h, if_pos hb, if_pos hb, ← h.place_eq]
    · rw [if_neg hb]
      by_cases hopen : b = Byte.openBracket
      · subst hopen
        rcases Bytes.exists_cut endsSection t with hw | ⟨w, c, u, rfl, hw, hc⟩
        · rw [atomStop_unclosed h hw]
          show _ = Except.ok (match readAtom true (Byte.openBracket :: done) t with
            | none => _ | some (_, rest) => _)
          rw [← List.append_nil t, readAtom_section hw]
          rfl
        · rw [atomStop_section h hw hc]
          show _ = Except.ok (match readAtom true (Byte.openBracket :: done) (w ++ c :: u) with
            | none => _ | some (_, rest) => _)
          rw [readAtom_section hw]
          have hnext : At s (pos + (w.length + 1)) (c :: u) :=
            At.append (w := Byte.openBracket :: w) h
          -- the first byte that can end the section either does or ends the line
          by_cases hbracket : c = Byte.closeBracket
          · subst hbracket
            rw [if_pos rfl]
            exact ih u.length (by simp [← hn]; omega) hnext.tail _ rfl
          · have hline : c = Byte.cr ∨ c = Byte.lf := by
              simpa [endsSection, hbracket] using hc
            rw [if_neg hbracket, readAtom, if_pos rfl, if_pos hline]
      · rw [atomStop_cons h, if_neg hb, if_neg hopen,
          show (b == Byte.openBracket) = false by simpa using hopen]
        exact ih t.length (by simp [← hn]) h.tail _ rfl

end

/-! ## Lexemes -/

/-- What is found at a place, and the place behind it. -/
inductive PlacedLexed where
  | found (lexeme : Lexeme) (next : Nat)
  | wanting (needs : PlacedNeeds)
  | wrong (fault : Fault)

/-- What has been found in the fragment `s`, told by places. -/
def Lexed.placed (s : Bytes) : Lexed → PlacedLexed
  | found lexeme rest => .found lexeme (s.length - rest.length)
  | wanting needs => .wanting (needs.placed s)
  | wrong fault => .wrong fault

namespace Lexeme

/-- The literal that begins at a place, behind its marker. -/
def dataAt (marker : LiteralMarker) (s : Bytes) (start : Nat) : Except Trap PlacedLexed := do
  let stop ← Trap.add start marker.length
  if s.length < stop ∨ start = s.length then
    return .wanting (.literal stop marker.synchronising)
  else
    let data ← s.part start stop
    return .found (.item (.literal data marker.binary) marker.synchronising) stop

/-- The literal whose marker begins at a place. -/
def literalAt (maxLiteral : Nat) (s : Bytes) (ix : Nat) : Except Trap PlacedLexed := do
  match ← LiteralMarker.readAt s ix with
  | .error fault => return .wrong fault
  | .ok (marker, start) =>
    if maxLiteral < marker.length then return .wrong (.literalTooLong marker.length)
    else dataAt marker s start

/-- The atom that begins at a place. -/
def atomAt (s : Bytes) (ix : Nat) : Except Trap PlacedLexed := do
  match ← atomStop s ix with
  | .error fault => return .wrong fault
  | .ok stop =>
    if stop = ix then return .wrong (.other "Unexpected character")
    else
      let word ← s.part ix stop
      return .found (.item (.ofWord word) false) stop

/-- The lexeme that begins at a place with the byte `b`. -/
def firstAt (maxLiteral : Nat) (s : Bytes) (ix : Nat) (b : UInt8) : Except Trap PlacedLexed :=
  if b = Byte.space then .ok (.found .blank (ix + 1))
  else if b = Byte.cr then
    match s[ix + 1]? with
    | none => .ok (.wanting .line)
    | some c =>
      if c = Byte.lf then .ok (.found .lineEnd (ix + 2)) else .ok (.wrong .bareCarriageReturn)
  else if b = Byte.lf then .ok (.wrong .bareLineFeed)
  else if b = Byte.openParen then .ok (.found .openList (ix + 1))
  else if b = Byte.closeParen then .ok (.found .closeList (ix + 1))
  else if b = Byte.quote then do
    match ← quotedAt s (ix + 1) (ix + 1) none with
    | .error fault => return .wrong fault
    | .ok (content, next) => return .found (.item (.quoted content) false) next
  else do
    if ← LiteralMarker.beginsAt s ix then literalAt maxLiteral s ix else atomAt s ix

variable {maxLiteral ix : Nat} {s t : Bytes} {b : UInt8}

/-- The place where a literal ends is the only sum that can be too large. -/
theorem comes_dataAt {marker : LiteralMarker} (h : At s ix t) (hfit : marker.length ≤ maxLiteral) :
    Comes (s.length + maxLiteral < UInt64.size) (dataAt marker s ix)
      ((literal marker t).placed s) := by
  have hlength := h.length_eq
  unfold dataAt
  by_cases hadd : ix + marker.length < UInt64.size
  · left
    rw [Trap.add, if_pos hadd, literal]
    show (if s.length < ix + marker.length ∨ ix = s.length then _ else _) = _
    by_cases hshort : (t.take marker.length).length < marker.length ∨ t.isEmpty
    · have hmissing : s.length < ix + marker.length ∨ ix = s.length := by
        rw [List.length_take, List.isEmpty_iff_length_eq_zero] at hshort
        omega
      -- what is missing is counted from the end of the fragment, and here from the literal's start
      have hstop : s.length + (marker.length - (t.take marker.length).length)
          = ix + marker.length := by
        rw [List.length_take]
        omega
      rw [if_pos hmissing, if_pos hshort, Lexed.placed, Needs.placed, hstop]
      rfl
    · have hthere : ¬(s.length < ix + marker.length ∨ ix = s.length) := by
        rw [List.length_take, List.isEmpty_iff_length_eq_zero] at hshort
        omega
      have hsplit : At s ix (t.take marker.length ++ t.drop marker.length) := by
        rwa [List.take_append_drop]
      have hbody : (t.take marker.length).length = marker.length := by
        rw [List.length_take] at hshort ⊢
        omega
      have hpart := hsplit.part_eq
      have hstop := hsplit.append.place_eq
      rw [hbody] at hpart hstop
      rw [if_neg hthere, if_neg hshort, hpart, Lexed.placed, hstop]
      rfl
  · right
    -- the literal begins inside of the fragment and is no longer than the longest one
    rw [Trap.add, if_neg hadd]
    exact ⟨rfl, by omega⟩

theorem comes_literalAt {binary : Bool} {after : Bytes} (h : At s ix (b :: t))
    (hbegin : LiteralMarker.begin? (b :: t) = some (binary, after)) :
    Comes (s.length + maxLiteral < UInt64.size) (literalAt maxLiteral s ix)
      (Lexed.placed s (match LiteralMarker.read binary after with
        | .error fault => .wrong fault
        | .ok (marker, data) =>
          if maxLiteral < marker.length then .wrong (.literalTooLong marker.length)
          else literal marker data)) := by
  unfold literalAt
  rw [LiteralMarker.readAt_eq h hbegin]
  rcases hread : LiteralMarker.read binary after with fault | ⟨marker, data⟩
  · exact .pure _
  · have hdata := h.tail.of_suffix_at ((suffix_of_read hread).trans (suffix_of_begin? hbegin))
    show Comes _ (if maxLiteral < marker.length then _ else _)
      (Lexed.placed s (if maxLiteral < marker.length then _ else _))
    by_cases hlong : maxLiteral < marker.length
    · rw [if_pos hlong, if_pos hlong]
      exact .pure _
    · rw [if_neg hlong, if_neg hlong]
      exact comes_dataAt hdata (Nat.le_of_not_lt hlong)

theorem atomAt_eq (h : At s ix (b :: t)) (hb : endsAtom b = false) :
    atomAt s ix = .ok (Lexed.placed s (match readAtom (b == Byte.openBracket) [b] t with
      | none => .wrong .unclosedSection
      | some (word, rest) => .found (.item (.ofWord word) false) rest)) := by
  have hstop := atomStop_eq h []
  rw [readAtom, if_neg Bool.false_ne_true, if_neg (by simp [hb])] at hstop
  unfold atomAt
  rw [hstop]
  rcases hread : readAtom (b == Byte.openBracket) [b] t with _ | ⟨word, rest⟩
  · rfl
  · -- the atom holds at least the byte that it begins with
    obtain ⟨text, rfl, rfl, -⟩ := text_of_readAtom hread
    have hword : At s ix ((b :: text) ++ rest) := h
    show (if s.length - rest.length = ix then _ else _) = _
    rw [hword.append.place_eq, if_neg (by simp), hword.part_eq, Lexed.placed,
      hword.append.place_eq]
    rfl

/-- A single byte that is a lexeme. -/
theorem found_tail (h : At s ix (b :: t)) (lexeme : Lexeme) :
    PlacedLexed.found lexeme (ix + 1) = Lexed.placed s (.found lexeme t) := by
  rw [Lexed.placed, h.tail.place_eq]

/-- The lexemes that only one byte begins. -/
theorem firstAt_eq_of_not_isPlain (h : At s ix (b :: t)) (hb : ¬IsPlain b) :
    firstAt maxLiteral s ix b = .ok ((first maxLiteral b t).placed s) := by
  rcases eq_of_not_isPlain hb with rfl | rfl | rfl | rfl | rfl | rfl
  · exact congrArg Except.ok (found_tail h .blank)
  · show (match s[ix + 1]? with | none => _ | some c => _) = _
    rw [h.tail.get]
    cases t with
    | nil => rfl
    | cons c t =>
      by_cases hc : c = Byte.lf
      · subst hc
        exact congrArg Except.ok (found_tail h.tail .lineEnd)
      · show (if c = Byte.lf then _ else _) = _
        rw [if_neg hc, first, if_neg (by decide), if_pos rfl]
        · rfl
        · exact hc
  · rfl
  · exact congrArg Except.ok (found_tail h .openList)
  · exact congrArg Except.ok (found_tail h .closeList)
  · have hkept : Kept s (ix + 1) none [] t := h.tail
    show (quotedAt s (ix + 1) (ix + 1) none >>= _) = _
    rw [quotedAt_eq h.tail hkept, first_quote]
    rcases readQuoted [] t with fault | ⟨content, rest⟩ <;> rfl

/-- The first lexeme is found where it begins. -/
theorem comes_firstAt (h : At s ix (b :: t)) :
    Comes (s.length + maxLiteral < UInt64.size) (firstAt maxLiteral s ix b)
      ((first maxLiteral b t).placed s) := by
  by_cases hplain : IsPlain b
  · obtain ⟨h1, h2, h3, h4, h5, h6⟩ := id hplain
    rw [first_of_isPlain hplain, firstAt, if_neg h1, if_neg h2, if_neg h3, if_neg h4, if_neg h5,
      if_neg h6, LiteralMarker.beginsAt_eq h]
    rcases hbegin : LiteralMarker.begin? (b :: t) with _ | ⟨binary, after⟩
    · have hbrace : b ≠ Byte.openBrace := by
        rintro rfl
        cases hbegin
      exact .of_eq (atomAt_eq h (endsAtom_of_isPlain hplain hbrace))
    · exact comes_literalAt h hbegin
  · exact .of_eq (firstAt_eq_of_not_isPlain h hplain)

end Lexeme

end MailProtocol.Imap
