import MailProtocol.Imap.Item.Writer
import MailProtocol.Proofs.Imap.Scan

/-!
# Markers at the end of a line

While a line is skipped, a marker is looked for at its end (`LiteralMarker.atEnd?`). One is found
exactly if the line ends in one (`LiteralMarker.atEnd?_eq_some_iff`), whatever comes before it
(`LiteralMarker.atEnd?_append`). What is written for an item that stays on its line ends in nothing
that looks like one, because a bracket or a quote closes behind every opening brace
(`Scan.closes_of_run`).
-/

namespace MailProtocol

namespace Imap

namespace LiteralMarker

/-- What a marker that does not ask for a wait looks like from its opening brace to its closing
one. -/
def plain (n : Nat) : Bytes := Byte.openBrace :: (Decimal.write n ++ [Byte.plus, Byte.closeBrace])

/-- What a marker with these digits looks like from its opening brace to its closing one. -/
def braced (digits : Bytes) (plus : Bool) : Bytes :=
  Byte.openBrace :: (digits ++ ((if plus then [Byte.plus] else []) ++ [Byte.closeBrace]))

/-- Digits are found behind the opening brace. -/
theorem digits_eq_some_iff {d : Bytes} {synchronising : Bool} {m : LiteralMarker} :
    (match d.dropWhile Byte.isDigit with
      | Byte.openBrace :: before => do
        let length ← Decimal.read? (d.takeWhile Byte.isDigit).reverse
        some ⟨length, before.head? == some Byte.tilde, synchronising⟩
      | _ => none) = some m
    ↔ ∃ before digits, d = digits.reverse ++ Byte.openBrace :: List.reverse before
      ∧ (∀ b ∈ digits, Byte.isDigit b) ∧ Decimal.read? digits = some m.length
      ∧ m.binary = (before.getLast? == some Byte.tilde) ∧ m.synchronising = synchronising := by
  constructor
  · intro h
    have hd := List.takeWhile_append_dropWhile (p := Byte.isDigit) (l := d)
    split at h
    · next before hdrop =>
      obtain ⟨length, hread, hm⟩ := Option.bind_eq_some_iff.1 h
      obtain rfl := Option.some.inj hm
      refine ⟨before.reverse, (d.takeWhile Byte.isDigit).reverse, ?_, ?_, hread, ?_, rfl⟩
      · rw [List.reverse_reverse, List.reverse_reverse]
        rw [hdrop] at hd
        exact hd.symm
      · intro b hb
        exact List.mem_takeWhile_imp (List.mem_reverse.1 hb)
      · rw [List.getLast?_reverse]
    · cases h
  · obtain ⟨length, binary, synchronising'⟩ := m
    rintro ⟨before, digits, rfl, hdigits, hread, hbinary, rfl⟩
    have hdigits' : ∀ b ∈ digits.reverse, Byte.isDigit b = true := fun b hb =>
      hdigits b (List.mem_reverse.1 hb)
    rw [List.dropWhile_append_of_pos hdigits', List.takeWhile_append_of_pos hdigits',
      List.dropWhile_cons_of_neg (by decide), List.takeWhile_cons_of_neg (by decide),
      List.append_nil, List.reverse_reverse, hread]
    show some (⟨length, before.reverse.head? == some Byte.tilde, synchronising'⟩ : LiteralMarker)
      = _
    rw [List.head?_reverse, ← hbinary]

/-- Where no plus sign stands, none is taken off. -/
theorem plus_of_head? (s : Bytes) :
    s.head? ≠ some Byte.plus → (match s with
      | Byte.plus :: rest => (false, rest)
      | rest => (true, rest)) = (true, s) := by
  intro h
  split
  · exact absurd rfl h
  · rfl

/-- A marker is found at the end of a string exactly if the string ends in one. -/
theorem atEnd?_eq_some_iff {s : Bytes} {m : LiteralMarker} :
    atEnd? s = some m ↔ ∃ before digits, s = before ++ braced digits (!m.synchronising)
      ∧ (∀ b ∈ digits, Byte.isDigit b) ∧ Decimal.read? digits = some m.length
      ∧ m.binary = (before.getLast? == some Byte.tilde) := by
  constructor
  · intro h
    unfold atEnd? at h
    split at h
    · next t ht =>
      have hs : s = t.reverse ++ [Byte.closeBrace] := by
        rw [← List.reverse_reverse s, ht, List.reverse_cons]
        rfl
      split at h
      next synchronising d heq =>
        obtain ⟨before, digits, rfl, hdigits, hread, hbinary, hsync⟩ := digits_eq_some_iff.1 h
        refine ⟨before, digits, ?_, hdigits, hread, hbinary⟩
        rw [hs, hsync]
        split at heq
        · obtain ⟨rfl, rfl⟩ := Prod.mk.inj heq
          simp [braced]
        · obtain ⟨rfl, rfl⟩ := Prod.mk.inj heq
          simp [braced]
    · cases h
  · rintro ⟨before, digits, rfl, hdigits, hread, hbinary⟩
    have hreverse : (before ++ braced digits (!m.synchronising)).reverse = Byte.closeBrace
        :: ((if m.synchronising then [] else [Byte.plus])
          ++ (digits.reverse ++ Byte.openBrace :: before.reverse)) := by
      cases m.synchronising <;> simp [braced]
    have hfound := digits_eq_some_iff.2 ⟨before, digits, rfl, hdigits, hread, hbinary, rfl⟩
    -- no plus sign stands where the digits do
    have hplus : digits.reverse.head? ≠ some Byte.plus := by
      intro hhead
      have hmem : Byte.plus ∈ digits := List.mem_reverse.1 (List.mem_of_head? hhead)
      exact absurd (hdigits _ hmem) (by decide)
    have hne : digits.reverse ≠ [] := by
      rintro hnil
      obtain rfl := List.reverse_eq_nil_iff.1 hnil
      cases hread
    unfold atEnd?
    rw [hreverse]
    generalize digits.reverse = d at hfound hplus hne
    obtain ⟨b, d, rfl⟩ := List.exists_cons_of_ne_nil hne
    have hb : b ≠ Byte.plus := by simpa using hplus
    rw [List.cons_append] at hfound ⊢
    generalize d ++ Byte.openBrace :: before.reverse = d at hfound
    cases hsync : m.synchronising with
    | false =>
      rw [hsync] at hfound
      exact hfound
    | true =>
      rw [hsync] at hfound
      have hnone := plus_of_head? (b :: d) (by simpa using hb)
      refine (congrArg (fun p : Bool × Bytes => match p.2.dropWhile Byte.isDigit with
        | Byte.openBrace :: before => do
          let length ← Decimal.read? (p.2.takeWhile Byte.isDigit).reverse
          some (⟨length, before.head? == some Byte.tilde, p.1⟩ : LiteralMarker)
        | _ => none) hnone).trans hfound

/-- A marker at the end of a string is found whatever comes before the string. -/
theorem atEnd?_append {s : Bytes} {m : LiteralMarker} (h : atEnd? s = some m) (u : Bytes) :
    ∃ binary, atEnd? (u ++ s) = some { m with binary } := by
  obtain ⟨before, digits, rfl, hdigits, hread, -⟩ := atEnd?_eq_some_iff.1 h
  refine ⟨(u ++ before).getLast? == some Byte.tilde, ?_⟩
  exact atEnd?_eq_some_iff.2
    ⟨u ++ before, digits, (List.append_assoc u before _).symm, hdigits, hread, rfl⟩

/-- Behind each opening brace the string goes on to a bracket or a quote. -/
def Closes (s : Bytes) : Prop :=
  ∀ before y, s = before ++ Byte.openBrace :: y → Byte.closeBracket ∈ y ∨ Byte.quote ∈ y

theorem Closes.of_suffix {s t : Bytes} (h : Closes s) (ht : t <:+ s) : Closes t := by
  obtain ⟨front, rfl⟩ := ht
  rintro before y rfl
  exact h (front ++ before) y (by simp)

theorem closes_nil : Closes [] := by
  intro before y h
  simp at h

theorem Closes.append {s t : Bytes} (hs : Closes s) (ht : Closes t) : Closes (s ++ t) := by
  intro before y h
  rcases List.append_eq_append_iff.1 h with ⟨z, rfl, hz⟩ | ⟨z, rfl, hz⟩
  · exact ht z y hz
  · rcases List.cons_eq_append_iff.1 hz with ⟨-, hz⟩ | ⟨z, rfl, rfl⟩
    · exact ht [] y hz
    · rw [List.mem_append, List.mem_append]
      exact (hs before z rfl).imp .inl .inl

/-- From its opening brace to its closing one a marker has digits and perhaps a plus sign, so it
does not close in this way. -/
theorem Closes.atEnd?_eq_none {s : Bytes} (h : Closes s) : atEnd? s = none := by
  rw [Option.eq_none_iff_forall_ne_some]
  intro m hm
  obtain ⟨before, digits, hs, hdigits, -⟩ := atEnd?_eq_some_iff.1 hm
  have hmem : ∀ b ∈ digits ++ ((if !m.synchronising then [Byte.plus] else []) ++ [Byte.closeBrace]),
      Byte.isDigit b = true ∨ b = Byte.plus ∨ b = Byte.closeBrace := by
    intro b hb
    rw [List.mem_append, List.mem_append, List.mem_singleton] at hb
    refine hb.imp (hdigits b) (Or.imp_left fun hplus => ?_)
    split at hplus
    · exact List.mem_singleton.1 hplus
    · cases hplus
  rcases h before _ hs with hb | hb
  · exact absurd (hmem _ hb) (by decide)
  · exact absurd (hmem _ hb) (by decide)

end LiteralMarker

/-! ## What is read leaves no marker at the end of its line -/

/-- Behind a brace in an atom a section closes. -/
theorem AtomText.closes {s : Bytes} (h : AtomText s) {before y : Bytes}
    (hs : s = before ++ Byte.openBrace :: y) : Byte.closeBracket ∈ y := by
  induction h generalizing before with
  | nil => simp at hs
  | @byte b s hb _ _ ih =>
    rcases List.cons_eq_append_iff.1 hs with ⟨-, hcons⟩ | ⟨before, -, htail⟩
    · obtain ⟨rfl, -⟩ := List.cons.inj hcons
      exact absurd hb (by decide)
    · exact ih htail
  | @bracketed inside s hinside _ ih =>
    rcases List.cons_eq_append_iff.1 hs with ⟨-, hcons⟩ | ⟨before, -, htail⟩
    · exact absurd (List.cons.inj hcons).1 (by decide)
    · -- the brace is in the section or behind it
      rcases List.append_eq_append_iff.1 htail with ⟨z, rfl, hz⟩ | ⟨z, rfl, hz⟩
      · rcases List.cons_eq_append_iff.1 hz with ⟨-, hcons⟩ | ⟨z, -, hz⟩
        · exact absurd (List.cons.inj hcons).1 (by decide)
        · exact ih hz
      · rcases List.cons_eq_append_iff.1 hz with ⟨-, hcons⟩ | ⟨z, -, hz⟩
        · exact absurd (List.cons.inj hcons).1 (by decide)
        · rw [hz]
          simp

open LiteralMarker (Closes)

/-- A lexeme that stays on its line has no open marker. -/
theorem Lexeme.Spells.closes {maxLiteral : Nat} {lexeme : Lexeme} {text : Bytes}
    {next : Option UInt8} (h : lexeme.Spells maxLiteral text next) (hline : Byte.lf ∉ text) :
    Closes text := by
  have hsingle (b : UInt8) (hb : b ≠ Byte.openBrace) : Closes [b] := by
    intro before y hs
    rcases List.cons_eq_append_iff.1 hs with ⟨-, hcons⟩ | ⟨z, -, hz⟩
    · exact absurd (List.cons.inj hcons).1.symm hb
    · simp at hz
  cases h with
  | blank | openList | closeList => exact hsingle _ (by decide)
  | lineEnd => exact absurd hline (by decide)
  | literal htext _ _ _ =>
    obtain ⟨content, -, hcontent⟩ := htext.isLine
    simp [hcontent] at hline
  | @quoted _ inner content _ =>
    intro before y hs
    -- the closing quote is behind the brace
    rcases List.eq_nil_or_concat y with rfl | ⟨y, b, rfl⟩
    · rw [← List.cons_append] at hs
      exact absurd (List.append_inj' hs rfl).2 (by decide)
    · rw [← List.cons_append, List.concat_eq_append, ← List.cons_append, ← List.append_assoc] at hs
      obtain ⟨-, hb⟩ := List.append_inj' hs rfl
      right
      rw [List.concat_eq_append, ← hb]
      simp
  | atom h _ _ _ => exact fun before y hs => .inl (h.closes hs)

namespace Scan

variable {maxLiteral : Nat} {nest : Nest} {waits : Nat}

theorem run_lf (t : Bytes) :
    run maxLiteral nest waits (Byte.lf :: t) = .error .bareLineFeed := by
  rw [run_cons]
  rfl

/-- A lexeme before the end of a line leaves the rest of the line, if it leaves more than what comes
after the line and does not end inside of the line end. -/
theorem closes_of_lexeme {lexeme : Lexeme} {text left s t : Bytes}
    (hspells : lexeme.Spells maxLiteral text left.head?)
    (hs : text ++ left = s ++ (Bytes.crlf ++ t)) (hline : Byte.lf ∉ s)
    (hleft : t.length < left.length) (hlf : left ≠ Byte.lf :: t)
    (ih : ∀ s', left = s' ++ (Bytes.crlf ++ t) → Byte.lf ∉ s' → Closes s') : Closes s := by
  rcases List.append_eq_append_iff.1 hs with ⟨z, rfl, hz⟩ | ⟨z, rfl, hz⟩
  · rw [List.mem_append, not_or] at hline
    exact (hspells.closes hline.1).append (ih z hz hline.2)
  · rcases z with _ | ⟨b, _ | ⟨c, z⟩⟩
    · rw [List.append_nil] at hspells
      exact hspells.closes hline
    · exact absurd (List.cons.inj hz).2.symm hlf
    · have htail : t = z ++ left := (List.cons.inj (List.cons.inj hz).2).2
      rw [htail, List.length_append] at hleft
      omega

/-- What has been read up to the end of its line ends in no marker. -/
theorem closes_of_run {items : List Item} {waits' : Nat} {s t : Bytes}
    (h : run maxLiteral nest waits (s ++ (Bytes.crlf ++ t)) = .ok (.complete items waits' t))
    (hline : Byte.lf ∉ s) : Closes s := by
  generalize hx : s ++ (Bytes.crlf ++ t) = x at h
  fun_induction run maxLiteral nest waits x generalizing s with
  | case1 | case2 | case3 | case5 | case8 => simp at h
  | case6 nest waits b r left hfirst items' hitems =>
    obtain ⟨-, -, rfl⟩ := by simpa only [Except.ok.injEq, Scan.complete.injEq] using h
    obtain ⟨text, hs, hspells⟩ := Lexeme.first_eq_found_iff.1 hfirst
    cases hspells
    have hnil : s ++ Bytes.crlf = [] ++ Bytes.crlf := by
      rw [hs, ← List.append_assoc] at hx
      exact List.append_cancel_right hx
    rw [List.append_cancel_right hnil]
    exact LiteralMarker.closes_nil
  | case4 nest waits b r left hfirst _ ih | case7 nest waits b r left hfirst _ ih
  | case9 nest waits b r left hfirst _ _ _ ih | case10 nest waits b r left _ _ hfirst _ ih =>
    obtain ⟨text, hs, hspells⟩ := Lexeme.first_eq_found_iff.1 hfirst
    refine closes_of_lexeme hspells (hs.symm.trans hx.symm) hline (suffix_of_run h).2 ?_
      fun s' hs' hline' => ih hline' hs'.symm h
    rintro rfl
    rw [run_lf] at h
    cases h

end Scan

end Imap

end MailProtocol
