import MailProtocol.Imap.Item.Parser
import MailProtocol.Proofs.Bytes.Decimal
import MailProtocol.Proofs.Bytes.Lines

/-!
# How lexemes are spelled

Which texts spell an atom (`AtomText`), the inside of a quoted string (`QuotedText`) and the marker
of a literal (`LiteralMarker.Tail`), and that the readers accept exactly these: `text_of_readAtom`,
`readQuoted_eq_ok_iff` and `LiteralMarker.read_eq_ok_iff`. An atom goes on as long as it can, so
what follows it has to end it (`StopsAtom`).
-/

namespace MailProtocol.Imap

/-! ## Atoms -/

/-- The inside of a bracketed section. -/
def IsSection (s : Bytes) : Prop := ∀ b ∈ s, b ≠ Byte.closeBracket ∧ b ≠ Byte.cr ∧ b ≠ Byte.lf

/-- The bytes of an atom: such as end no atom, and closed sections. -/
inductive AtomText : Bytes → Prop
  | nil : AtomText []
  | byte {b : UInt8} {s : Bytes} (hb : endsAtom b = false) (hopen : b ≠ Byte.openBracket)
    (hs : AtomText s) : AtomText (b :: s)
  | bracketed {inside s : Bytes} (hinside : IsSection inside) (hs : AtomText s) :
    AtomText (Byte.openBracket :: (inside ++ Byte.closeBracket :: s))

/-- An atom stays on its line. -/
theorem AtomText.lf_notMem {text : Bytes} (h : AtomText text) : Byte.lf ∉ text := by
  induction h with
  | nil => simp
  | @byte b s hb _ _ ih =>
    have hne : Byte.lf ≠ b := by
      rintro rfl
      exact absurd hb (by decide)
    exact List.not_mem_cons_of_ne_of_not_mem hne ih
  | @bracketed inside s hinside _ ih =>
    have hsection : Byte.lf ∉ inside := fun hmem => (hinside _ hmem).2.2 rfl
    rw [List.mem_cons, List.mem_append, List.mem_cons, not_or, not_or, not_or]
    exact ⟨by decide, hsection, by decide, ih⟩

/-- What follows ends an atom: nothing, or a byte that no atom goes on with. -/
def StopsAtom (next : Option UInt8) : Prop := ∀ b, next = some b → endsAtom b = true

/-- A section is read up to its closing bracket. -/
theorem readAtom_inside {inside : Bytes} (h : IsSection inside) (done s : Bytes) :
    readAtom true done (inside ++ Byte.closeBracket :: s)
      = readAtom false (Byte.closeBracket :: (inside.reverse ++ done)) s := by
  induction inside generalizing done with
  | nil => rfl
  | cons b inside ih =>
    obtain ⟨⟨hclose, hcr, hlf⟩, hinside⟩ := List.forall_mem_cons.1 h
    have hstay : (b != Byte.closeBracket) = true := by simpa using hclose
    have hline : ¬(b = Byte.cr ∨ b = Byte.lf) := not_or_intro hcr hlf
    rw [List.cons_append, readAtom, if_pos rfl, if_neg hline, hstay, ih hinside]
    simp

theorem readAtom_of_atomText {text : Bytes} (h : AtomText text) {rest : Bytes}
    (hstop : StopsAtom rest.head?) (done : Bytes) :
    readAtom false done (text ++ rest) = some (done.reverse ++ text, rest) := by
  induction h generalizing done with
  | nil =>
    cases rest with
    | nil => simp [readAtom]
    | cons b rest =>
      have hb := hstop b rfl
      simp [readAtom, hb]
  | @byte b s hb hopen hs ih =>
    have hnot : (b == Byte.openBracket) = false := by simpa using hopen
    have hgo : ¬endsAtom b = true := by simp [hb]
    rw [List.cons_append, readAtom, if_neg Bool.false_ne_true, if_neg hgo, hnot, ih]
    simp
  | @bracketed inside s hinside hs ih =>
    have hgo : ¬endsAtom Byte.openBracket = true := by decide
    rw [List.cons_append, List.append_assoc, List.cons_append, readAtom, if_neg Bool.false_ne_true,
      if_neg hgo]
    show readAtom true _ _ = _
    rw [readAtom_inside hinside, ih]
    simp

/-- What is read on as an atom: the rest of the section, if one is open, and an atom's text. -/
theorem text_of_readAtom {inSection : Bool} {done s word rest : Bytes}
    (h : readAtom inSection done s = some (word, rest)) :
    ∃ text, s = text ++ rest ∧ word = done.reverse ++ text ∧ StopsAtom rest.head?
      ∧ if inSection then ∃ inside more, text = inside ++ Byte.closeBracket :: more
          ∧ IsSection inside ∧ AtomText more
        else AtomText text := by
  induction s generalizing inSection done with
  | nil =>
    cases inSection
    · obtain ⟨rfl, rfl⟩ := by simpa [readAtom] using h
      exact ⟨[], rfl, by simp, by simp [StopsAtom], .nil⟩
    · simp [readAtom] at h
  | cons b s ih =>
    cases inSection
    · -- outside of a section the byte ends the atom, opens a section or belongs to the atom
      by_cases hb : endsAtom b
      · obtain ⟨rfl, rfl⟩ := by simpa [readAtom, hb] using h
        exact ⟨[], rfl, by simp, by rintro _ ⟨⟩; exact hb, .nil⟩
      · rw [readAtom, if_neg Bool.false_ne_true, if_neg hb] at h
        obtain ⟨text, rfl, rfl, hstop, hif⟩ := ih h
        refine ⟨b :: text, rfl, by simp, hstop, ?_⟩
        by_cases hopen : b = Byte.openBracket
        · subst hopen
          obtain ⟨inside, more, rfl, hinside, hmore⟩ := hif
          exact .bracketed hinside hmore
        · rw [if_neg (by simpa using hopen)] at hif
          exact .byte (by simpa using hb) hopen hif
    · -- inside of one it is a line end, which must not be there, or closes it or belongs to it
      rw [readAtom, if_pos rfl] at h
      by_cases hline : b = Byte.cr ∨ b = Byte.lf
      · simp [hline] at h
      · rw [if_neg hline] at h
        rw [not_or] at hline
        obtain ⟨text, rfl, rfl, hstop, hif⟩ := ih h
        refine ⟨b :: text, rfl, by simp, hstop, ?_⟩
        by_cases hclose : b = Byte.closeBracket
        · subst hclose
          exact ⟨[], text, rfl, by simp [IsSection], hif⟩
        · rw [if_pos (by simpa using hclose)] at hif
          obtain ⟨inside, more, rfl, hinside, hmore⟩ := hif
          exact ⟨b :: inside, more, rfl, List.forall_mem_cons.2 ⟨⟨hclose, hline⟩, hinside⟩, hmore⟩

/-! ## Quoted strings -/

/-- The inside of a quoted string, and the string that it stands for. -/
inductive QuotedText : Bytes → Bytes → Prop
  | nil : QuotedText [] []
  | plain {b : UInt8} {text s : Bytes} (hline : b ≠ Byte.cr ∧ b ≠ Byte.lf)
    (hplain : b ≠ Byte.quote ∧ b ≠ Byte.backslash) (hs : QuotedText text s) :
    QuotedText (b :: text) (b :: s)
  | escaped {b : UInt8} {text s : Bytes} (hb : b = Byte.quote ∨ b = Byte.backslash)
    (hs : QuotedText text s) : QuotedText (Byte.backslash :: b :: text) (b :: s)

/-- A quoted string stays on its line. -/
theorem QuotedText.lf_notMem {text content : Bytes} (h : QuotedText text content) :
    Byte.lf ∉ text := by
  induction h with
  | nil => simp
  | plain hline _ _ ih => exact List.not_mem_cons_of_ne_of_not_mem hline.2.symm ih
  | @escaped b text s hb _ ih =>
    have hne : Byte.lf ≠ b := by rcases hb with rfl | rfl <;> decide
    exact List.not_mem_cons_of_ne_of_not_mem (by decide)
      (List.not_mem_cons_of_ne_of_not_mem hne ih)

theorem readQuoted_quote (done rest : Bytes) :
    readQuoted done (Byte.quote :: rest) = .ok (done.reverse, rest) := by
  rw [readQuoted.eq_def]
  rfl

theorem readQuoted_plain {b : UInt8} (hline : b ≠ Byte.cr ∧ b ≠ Byte.lf)
    (hplain : b ≠ Byte.quote ∧ b ≠ Byte.backslash) (done rest : Bytes) :
    readQuoted done (b :: rest) = readQuoted (b :: done) rest := by
  rw [readQuoted.eq_def]
  simp only [if_neg (not_or_intro hline.1 hline.2), if_neg hplain.1, if_neg hplain.2]

theorem readQuoted_escaped {b : UInt8} (hb : b = Byte.quote ∨ b = Byte.backslash)
    (done rest : Bytes) :
    readQuoted done (Byte.backslash :: b :: rest) = readQuoted (b :: done) rest := by
  rw [readQuoted.eq_def]
  show (if b = Byte.quote ∨ b = Byte.backslash then _ else _) = _
  rw [if_pos hb]

theorem readQuoted_of_quotedText {text content : Bytes} (h : QuotedText text content)
    (done rest : Bytes) :
    readQuoted done (text ++ Byte.quote :: rest) = .ok (done.reverse ++ content, rest) := by
  induction h generalizing done with
  | nil =>
    rw [List.nil_append, readQuoted_quote, List.append_nil]
  | plain hline hplain hs ih =>
    rw [List.cons_append, readQuoted_plain hline hplain, ih]
    simp
  | escaped hb hs ih =>
    rw [List.cons_append, List.cons_append, readQuoted_escaped hb, ih]
    simp

theorem text_of_readQuoted {done s word rest : Bytes} (h : readQuoted done s = .ok (word, rest)) :
    ∃ text content, s = text ++ Byte.quote :: rest ∧ word = done.reverse ++ content
      ∧ QuotedText text content := by
  fun_induction readQuoted done s with
  | case1 | case2 | case4 | case6 => simp at h
  | case3 done s hline =>
    obtain ⟨rfl, rfl⟩ := by simpa using h
    exact ⟨[], [], rfl, by simp, .nil⟩
  | case5 done e s he hline hquote ih =>
    obtain ⟨text, content, rfl, rfl, htext⟩ := ih h
    exact ⟨Byte.backslash :: e :: text, e :: content, rfl, by simp, .escaped he htext⟩
  | case7 done b s hline hquote hslash ih =>
    obtain ⟨text, content, rfl, rfl, htext⟩ := ih h
    exact ⟨b :: text, b :: content, rfl, by simp, .plain (not_or.1 hline) ⟨hquote, hslash⟩ htext⟩

/-- What is read as the inside of a quoted string, and as which string. -/
theorem readQuoted_eq_ok_iff {s content rest : Bytes} :
    readQuoted [] s = .ok (content, rest)
      ↔ ∃ text, s = text ++ Byte.quote :: rest ∧ QuotedText text content := by
  constructor
  · intro h
    obtain ⟨text, content', rfl, rfl, htext⟩ := text_of_readQuoted h
    exact ⟨text, rfl, htext⟩
  · rintro ⟨text, rfl, htext⟩
    exact readQuoted_of_quotedText htext [] rest

/-! ## Literal markers -/

namespace LiteralMarker

/-- What stands between the opening brace of a marker and the data of its literal. -/
inductive Tail (m : LiteralMarker) : Bytes → Prop
  | mk {digits : Bytes} (h : Decimal.read? digits = some m.length) :
    Tail m (digits ++ ((if m.synchronising then [] else [Byte.plus])
      ++ Byte.closeBrace :: Bytes.crlf))

theorem read_of_tail {m : LiteralMarker} {text : Bytes} (h : m.Tail text) (rest : Bytes) :
    read m.binary (text ++ rest) = .ok (m, rest) := by
  obtain @⟨digits, hread⟩ := h
  obtain ⟨hne, hdigits, -⟩ := Decimal.read?_eq_some_iff.1 hread
  obtain ⟨length, binary, synchronising⟩ := m
  have hsplit (b : UInt8) (more : Bytes) (hb : Byte.isDigit b = false) :
      (digits ++ b :: more).takeWhile Byte.isDigit = digits
        ∧ (digits ++ b :: more).dropWhile Byte.isDigit = b :: more := by
    rw [List.takeWhile_append_of_pos hdigits, List.dropWhile_append_of_pos hdigits]
    simp [hb]
  have hempty : digits.isEmpty = false := by simpa using hne
  unfold read
  cases synchronising
  · obtain ⟨htake, hdrop⟩ :=
      hsplit Byte.plus (Byte.closeBrace :: Byte.cr :: Byte.lf :: rest) (by decide)
    simp only [Bytes.crlf, Bool.false_eq_true, if_false, List.append_assoc, List.cons_append,
      List.nil_append, htake, hdrop, hempty, hread]
    rfl
  · obtain ⟨htake, hdrop⟩ := hsplit Byte.closeBrace (Byte.cr :: Byte.lf :: rest) (by decide)
    simp only [Bytes.crlf, if_true, List.append_assoc, List.cons_append,
      List.nil_append, htake, hdrop, hempty, hread, Bool.false_eq_true, if_false]
    rfl

/-- What is read after an opening brace as a marker, and as which. -/
theorem read_eq_ok_iff {m : LiteralMarker} {binary : Bool} {s rest : Bytes} :
    read binary s = .ok (m, rest) ↔ m.binary = binary ∧ ∃ text, s = text ++ rest ∧ m.Tail text := by
  constructor
  · intro h
    have hcut := List.takeWhile_append_dropWhile (p := Byte.isDigit) (l := s)
    unfold read at h
    simp only at h
    split at h
    · simp at h
    · split at h
      · simp at h
      · next length hread =>
        generalize s.dropWhile Byte.isDigit = t at h hcut
        split at h
        · next after heq =>
          obtain ⟨rfl, rfl⟩ := by simpa only [Except.ok.injEq, Prod.mk.injEq] using h
          refine ⟨rfl, _, ?_, .mk hread⟩
          rw [← hcut]
          split at heq <;> simp_all [Bytes.crlf]
        · simp at h
        · simp at h
  · rintro ⟨rfl, text, rfl, htext⟩
    exact read_of_tail htext rest

end LiteralMarker

end MailProtocol.Imap
