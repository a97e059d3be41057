import MailProtocol.Proofs.Imap.Spelling

/-!
# The first lexeme of a string

A string begins with a lexeme exactly if a text that spells the lexeme stands in front
(`first_eq_found_iff`). Of what follows that text only the first byte has a say: whether it ends an
atom, and whether it is there at all after an empty literal.

A literal whose marker is there but whose data are not yet complete is waited for
(`marker_of_first_wanting`).
-/

namespace MailProtocol.Imap

namespace LiteralMarker

/-- How a marker begins. -/
def opening (binary : Bool) : Bytes :=
  if binary then [Byte.tilde, Byte.openBrace] else [Byte.openBrace]

/-- The text of a marker, its line end included. -/
def Announces (m : LiteralMarker) (text : Bytes) : Prop :=
  ∃ tail, m.Tail tail ∧ text = opening m.binary ++ tail

theorem begin?_eq_some_iff {s rest : Bytes} {binary : Bool} :
    begin? s = some (binary, rest) ↔ s = opening binary ++ rest := by
  constructor
  · intro h
    unfold begin? at h
    split at h
    · obtain ⟨rfl, rfl⟩ := by simpa using h
      rfl
    · obtain ⟨rfl, rfl⟩ := by simpa using h
      rfl
    · simp at h
  · rintro rfl
    cases binary <;> rfl

theorem begin?_eq_none_iff {s : Bytes} :
    begin? s = none ↔ ∀ binary rest, s ≠ opening binary ++ rest := by
  constructor
  · intro h binary rest hs
    rw [begin?_eq_some_iff.2 hs] at h
    cases h
  · intro h
    rcases hb : begin? s with _ | ⟨binary, rest⟩
    · rfl
    · exact absurd (begin?_eq_some_iff.1 hb) (h binary rest)

/-- A marker is a line. -/
theorem Announces.isLine {m : LiteralMarker} {text : Bytes} (h : m.Announces text) :
    text.IsLine := by
  obtain ⟨tail, @⟨digits, hread⟩, rfl⟩ := h
  have hopening : Byte.lf ∉ opening m.binary := by cases m.binary <;> decide
  have hdigits : Byte.lf ∉ digits := by
    intro hmem
    exact absurd ((Decimal.read?_eq_some_iff.1 hread).2.1 _ hmem) (by decide)
  have hplus : Byte.lf ∉ if m.synchronising then [] else [Byte.plus] := by
    cases m.synchronising <;> decide
  exact .append hopening (.append hdigits (.append hplus (.cons (by decide) Bytes.isLine_crlf)))

end LiteralMarker

namespace Lexeme

/-- The text spells the lexeme in front of the byte `next`. -/
inductive Spells (maxLiteral : Nat) : Lexeme → Bytes → Option UInt8 → Prop
  | blank {next : Option UInt8} : Spells maxLiteral .blank [Byte.space] next
  | lineEnd {next : Option UInt8} : Spells maxLiteral .lineEnd Bytes.crlf next
  | openList {next : Option UInt8} : Spells maxLiteral .openList [Byte.openParen] next
  | closeList {next : Option UInt8} : Spells maxLiteral .closeList [Byte.closeParen] next
  | quoted {next : Option UInt8} {text content : Bytes} (h : QuotedText text content) :
    Spells maxLiteral (.item (.quoted content) false) (Byte.quote :: (text ++ [Byte.quote])) next
  /-- An empty literal counts only if something follows its marker. -/
  | literal {next : Option UInt8} {m : LiteralMarker} {text data : Bytes} (htext : m.Announces text)
    (hfit : m.length ≤ maxLiteral) (hdata : data.length = m.length)
    (hthere : data ≠ [] ∨ next ≠ none) :
    Spells maxLiteral (.item (.literal data m.binary) m.synchronising) (text ++ data) next
  | atom {next : Option UInt8} {text : Bytes} (h : AtomText text) (hne : text ≠ [])
    (hstop : StopsAtom next) (hmarker : ¬(text = [Byte.tilde] ∧ next = some Byte.openBrace)) :
    Spells maxLiteral (.item (.ofWord text) false) text next

/-- A lexeme has at least one byte. -/
theorem Spells.ne_nil {maxLiteral : Nat} {lexeme : Lexeme} {text : Bytes} {next : Option UInt8}
    (h : Spells maxLiteral lexeme text next) : text ≠ [] := by
  cases h with
  | blank | lineEnd | openList | closeList | quoted => simp [Bytes.crlf]
  | literal htext => exact List.append_ne_nil_of_left_ne_nil htext.isLine.ne_nil _
  | atom _ hne => exact hne

/-- Blanks and parentheses stay on their line. -/
theorem Spells.lf_notMem {maxLiteral : Nat} {lexeme : Lexeme} {text : Bytes} {next : Option UInt8}
    (h : Spells maxLiteral lexeme text next)
    (hmark : lexeme = .blank ∨ lexeme = .openList ∨ lexeme = .closeList) : Byte.lf ∉ text := by
  cases h with
  | blank | openList | closeList => decide
  | lineEnd | quoted | literal | atom => simp at hmark

/-- A byte that is neither a lexeme by itself nor the beginning of a line end or a quoted string. -/
def IsPlain (b : UInt8) : Prop :=
  b ≠ Byte.space ∧ b ≠ Byte.cr ∧ b ≠ Byte.lf ∧ b ≠ Byte.openParen ∧ b ≠ Byte.closeParen
    ∧ b ≠ Byte.quote

theorem isPlain_of_endsAtom {b : UInt8} (h : endsAtom b = false) :
    IsPlain b ∧ b ≠ Byte.openBrace := by
  simp only [endsAtom, Bool.or_eq_false_iff, beq_eq_false_iff_ne] at h
  obtain ⟨⟨⟨⟨⟨⟨h1, h2⟩, h3⟩, h4⟩, h5⟩, h6⟩, h7⟩ := h
  exact ⟨⟨h1, h2, h3, h4, h5, h6⟩, h7⟩

/-- The bytes that are lexemes by themselves or begin a line end or a quoted string. -/
theorem eq_of_not_isPlain {b : UInt8} (h : ¬IsPlain b) :
    b = Byte.space ∨ b = Byte.cr ∨ b = Byte.lf ∨ b = Byte.openParen ∨ b = Byte.closeParen
      ∨ b = Byte.quote := by
  by_contra hnot
  simp only [not_or] at hnot
  exact h hnot

/-- A byte that does not end an atom belongs to one. -/
theorem endsAtom_of_isPlain {b : UInt8} (h : IsPlain b) (hbrace : b ≠ Byte.openBrace) :
    endsAtom b = false := by
  obtain ⟨h1, h2, h3, h4, h5, h6⟩ := h
  simp [endsAtom, h1, h2, h3, h4, h5, h6, hbrace]

/-- Any other byte begins a marker or an atom. -/
theorem first_of_isPlain {b : UInt8} (h : IsPlain b) (maxLiteral : Nat) (s : Bytes) :
    first maxLiteral b s = match LiteralMarker.begin? (b :: s) with
      | some (binary, afterBrace) =>
        match LiteralMarker.read binary afterBrace with
        | .error fault => .wrong fault
        | .ok (marker, data) =>
          if maxLiteral < marker.length then .wrong (.literalTooLong marker.length)
          else literal marker data
      | none =>
        match readAtom (b == Byte.openBracket) [b] s with
        | none => .wrong .unclosedSection
        | some (word, rest) => .found (.item (.ofWord word) false) rest := by
  obtain ⟨h1, h2, h3, h4, h5, h6⟩ := h
  unfold first
  refine (if_neg h1).trans ((if_neg h2).trans ((if_neg h3).trans ?_))
  exact (if_neg h4).trans ((if_neg h5).trans (if_neg h6))

/-- After a marker the literal itself is looked for, unless it is too long. -/
theorem first_of_announces {maxLiteral : Nat} {m : LiteralMarker} {text : Bytes}
    (htext : m.Announces text) {b : UInt8} {s rest : Bytes} (hs : b :: s = text ++ rest) :
    first maxLiteral b s = if maxLiteral < m.length then .wrong (.literalTooLong m.length)
      else literal m rest := by
  obtain ⟨tail, htail, rfl⟩ := htext
  have hbegin : LiteralMarker.begin? (b :: s) = some (m.binary, tail ++ rest) := by
    rw [LiteralMarker.begin?_eq_some_iff, hs, List.append_assoc]
  have hb : IsPlain b := by
    have hhead : b = Byte.tilde ∨ b = Byte.openBrace := by
      cases hbin : m.binary <;> simp_all [LiteralMarker.opening]
    rcases hhead with rfl | rfl <;> (rw [IsPlain]; decide)
  rw [first_of_isPlain hb, hbegin]
  simp only [LiteralMarker.read_of_tail htail rest]

theorem first_of_marker {maxLiteral : Nat} {m : LiteralMarker} {text : Bytes}
    (htext : m.Announces text) (hfit : m.length ≤ maxLiteral) {b : UInt8} {s rest : Bytes}
    (hs : b :: s = text ++ rest) : first maxLiteral b s = literal m rest := by
  rw [first_of_announces htext hs, if_neg (Nat.not_lt.2 hfit)]

/-- A literal is there if all its data are and something is: without data the next byte. -/
theorem literal_eq_found {m : LiteralMarker} {data rest : Bytes} (hdata : data.length = m.length)
    (hthere : data ≠ [] ∨ rest ≠ []) :
    literal m (data ++ rest) = .found (.item (.literal data m.binary) m.synchronising) rest := by
  have hempty : (data ++ rest).isEmpty = false := by
    rw [List.isEmpty_eq_false_iff, ne_eq, List.append_eq_nil_iff, not_and_or]
    exact hthere
  unfold literal
  simp only [← hdata, List.take_left, List.drop_left, Nat.lt_irrefl, hempty, false_or,
    Bool.false_eq_true, if_false]

/-- An atom begins with a byte that does not end one. -/
theorem endsAtom_head {b : UInt8} {s : Bytes} (h : AtomText (b :: s)) : endsAtom b = false := by
  cases h with
  | byte hb _ _ => exact hb
  | bracketed _ _ => rfl

/-- The text of an atom does not begin a marker, unless it is a tilde before a brace. -/
theorem begin?_of_atomText {text rest : Bytes} (h : AtomText text) (hne : text ≠ [])
    (hmarker : ¬(text = [Byte.tilde] ∧ rest.head? = some Byte.openBrace)) :
    LiteralMarker.begin? (text ++ rest) = none := by
  rw [LiteralMarker.begin?_eq_none_iff]
  intro binary after heq
  obtain ⟨b, text, rfl⟩ := List.exists_cons_of_ne_nil hne
  cases binary with
  | false =>
    obtain ⟨hb, -⟩ := List.cons.inj heq
    exact absurd (endsAtom_head h) (by rw [hb]; decide)
  | true =>
    obtain ⟨hb, hrest⟩ := List.cons.inj heq
    -- the brace after the tilde would have to end the atom
    cases text with
    | nil =>
      refine hmarker ⟨by rw [hb], ?_⟩
      rw [← List.nil_append rest]
      exact congrArg List.head? hrest
    | cons c text =>
      obtain ⟨hc, -⟩ := List.cons.inj hrest
      rw [hb, hc] at h
      generalize htext : Byte.tilde :: Byte.openBrace :: text = t at h
      cases h with
      | nil => cases htext
      | byte _ _ hs =>
        obtain ⟨-, rfl⟩ := List.cons.inj htext
        exact absurd (endsAtom_head hs) (by decide)
      | bracketed _ _ => exact absurd (List.cons.inj htext).1 (by decide)

/-- The text of an atom is taken as a whole, unless a marker is meant. -/
theorem first_of_atomText {maxLiteral : Nat} {text rest : Bytes} (h : AtomText text)
    (hne : text ≠ []) (hstop : StopsAtom rest.head?)
    (hmarker : ¬(text = [Byte.tilde] ∧ rest.head? = some Byte.openBrace)) {b : UInt8} {s : Bytes}
    (hs : b :: s = text ++ rest) :
    first maxLiteral b s = .found (.item (.ofWord text) false) rest := by
  have hread := readAtom_of_atomText h hstop []
  have hbegin := begin?_of_atomText h hne hmarker
  obtain ⟨c, text, rfl⟩ := List.exists_cons_of_ne_nil hne
  have hc := endsAtom_head h
  obtain ⟨rfl, -⟩ := List.cons.inj hs
  rw [← hs] at hread hbegin
  rw [readAtom, if_neg Bool.false_ne_true, if_neg (by simp [hc])] at hread
  rw [first_of_isPlain (isPlain_of_endsAtom hc).1, hbegin]
  simp only [hread, List.reverse_nil, List.nil_append]

theorem first_quote (maxLiteral : Nat) (s : Bytes) :
    first maxLiteral Byte.quote s = match readQuoted [] s with
      | .error fault => .wrong fault
      | .ok (content, rest) => .found (.item (.quoted content) false) rest := rfl

/-- A text that spells a lexeme is taken as that lexeme. -/
theorem first_of_spells {maxLiteral : Nat} {lexeme : Lexeme} {text rest : Bytes}
    (h : Spells maxLiteral lexeme text rest.head?) {b : UInt8} {s : Bytes}
    (hs : b :: s = text ++ rest) : first maxLiteral b s = .found lexeme rest := by
  cases h with
  | blank | lineEnd | openList | closeList =>
    obtain ⟨rfl, rfl⟩ := List.cons.inj hs
    rfl
  | @quoted _ text content h =>
    rw [List.cons_append, List.append_assoc] at hs
    obtain ⟨rfl, rfl⟩ := List.cons.inj hs
    have hread := readQuoted_of_quotedText h [] rest
    rw [first_quote]
    simp only [List.cons_append, List.nil_append, hread, List.reverse_nil]
  | @literal _ m text data htext hfit hdata hthere =>
    rw [List.append_assoc] at hs
    have hrest : data ≠ [] ∨ rest ≠ [] := hthere.imp_right (mt fun h => h ▸ rfl)
    rw [first_of_marker htext hfit hs, literal_eq_found hdata hrest]
  | atom h hne hstop hmarker => exact first_of_atomText h hne hstop hmarker hs

/-! ## What has been taken -/

theorem of_literal_eq_found {m : LiteralMarker} {s rest : Bytes} {lexeme : Lexeme}
    (h : literal m s = .found lexeme rest) :
    ∃ data, s = data ++ rest ∧ data.length = m.length ∧ (data ≠ [] ∨ rest ≠ [])
      ∧ lexeme = .item (.literal data m.binary) m.synchronising := by
  unfold literal at h
  simp only at h
  split at h
  · simp at h
  · next hthere =>
    rw [not_or] at hthere
    obtain ⟨rfl, rfl⟩ := by simpa only [Lexed.found.injEq] using h
    have hne : s.take m.length ++ s.drop m.length ≠ [] := by
      rw [List.take_append_drop]
      simpa using hthere.2
    refine ⟨s.take m.length, (List.take_append_drop _ _).symm, ?_, ?_, rfl⟩
    · have := List.length_take_le m.length s
      omega
    · rw [ne_eq, List.append_eq_nil_iff, not_and_or] at hne
      exact hne

/-- The text of an atom that begins with the byte `b` and has been read on. -/
theorem atomText_cons {b : UInt8} {s more : Bytes} (hb : IsPlain b)
    (hbegin : LiteralMarker.begin? (b :: s) = none)
    (hif : if (b == Byte.openBracket) = true then ∃ inside text,
        more = inside ++ Byte.closeBracket :: text ∧ IsSection inside ∧ AtomText text
      else AtomText more) : AtomText (b :: more) := by
  by_cases hopen : b = Byte.openBracket
  · subst hopen
    obtain ⟨inside, text, rfl, hinside, htext⟩ := hif
    exact .bracketed hinside htext
  · rw [if_neg (by simpa using hopen)] at hif
    have hbrace : b ≠ Byte.openBrace := by
      rintro rfl
      cases hbegin
    exact .byte (endsAtom_of_isPlain hb hbrace) hopen hif

theorem spells_of_first_of_not_isPlain {maxLiteral : Nat} {b : UInt8} {s rest : Bytes}
    {lexeme : Lexeme} (hb : ¬IsPlain b) (h : first maxLiteral b s = .found lexeme rest) :
    ∃ text, b :: s = text ++ rest ∧ Spells maxLiteral lexeme text rest.head? := by
  rcases eq_of_not_isPlain hb with rfl | rfl | rfl | rfl | rfl | rfl
  · obtain ⟨rfl, rfl⟩ := by simpa [first] using h
    exact ⟨_, rfl, .blank⟩
  · match s, h with
    | Byte.lf :: s, h =>
      obtain ⟨rfl, rfl⟩ := Lexed.found.inj h
      exact ⟨_, rfl, .lineEnd⟩
  · cases h
  · obtain ⟨rfl, rfl⟩ := Lexed.found.inj h
    exact ⟨_, rfl, .openList⟩
  · obtain ⟨rfl, rfl⟩ := Lexed.found.inj h
    exact ⟨_, rfl, .closeList⟩
  · rw [first_quote] at h
    split at h
    · simp at h
    · next content rest' hread =>
      obtain ⟨rfl, rfl⟩ := Lexed.found.inj h
      obtain ⟨text, rfl, htext⟩ := readQuoted_eq_ok_iff.1 hread
      exact ⟨Byte.quote :: (text ++ [Byte.quote]), by simp, .quoted htext⟩

/-- What is taken as a lexeme is a text that spells it. -/
theorem spells_of_first {maxLiteral : Nat} {b : UInt8} {s rest : Bytes} {lexeme : Lexeme}
    (h : first maxLiteral b s = .found lexeme rest) :
    ∃ text, b :: s = text ++ rest ∧ Spells maxLiteral lexeme text rest.head? := by
  by_cases hb : IsPlain b
  · rw [first_of_isPlain hb] at h
    split at h
    · next binary after hbegin =>
      split at h
      · simp at h
      · next m data hread =>
        split at h
        · simp at h
        · next hfit =>
          obtain ⟨hbin, tail, rfl, htail⟩ := LiteralMarker.read_eq_ok_iff.1 hread
          obtain ⟨data, rfl, hdata, hthere, rfl⟩ := of_literal_eq_found h
          refine ⟨LiteralMarker.opening m.binary ++ tail ++ data, ?_,
            .literal ⟨tail, htail, rfl⟩ (by omega) hdata ?_⟩
          · rw [LiteralMarker.begin?_eq_some_iff.1 hbegin, hbin]
            simp only [List.append_assoc]
          · exact hthere.imp_right (mt List.head?_eq_none_iff.1)
    · next hbegin =>
      split at h
      · simp at h
      · next word rest' hread =>
        obtain ⟨rfl, rfl⟩ := by simpa only [Lexed.found.injEq] using h
        obtain ⟨more, rfl, rfl, hstop, hif⟩ := text_of_readAtom hread
        refine ⟨b :: more, rfl, .atom (atomText_cons hb hbegin hif) (by simp) hstop ?_⟩
        rintro ⟨heq, hbrace⟩
        obtain ⟨rfl, rfl⟩ := List.cons.inj heq
        obtain ⟨after, rfl⟩ := List.head?_eq_some_iff.1 hbrace
        cases hbegin
  · exact spells_of_first_of_not_isPlain hb h

/-- What is taken as a lexeme, and as which. -/
theorem first_eq_found_iff {maxLiteral : Nat} {b : UInt8} {s rest : Bytes} {lexeme : Lexeme} :
    first maxLiteral b s = .found lexeme rest
      ↔ ∃ text, b :: s = text ++ rest ∧ Spells maxLiteral lexeme text rest.head? := by
  constructor
  · exact spells_of_first
  · rintro ⟨text, hs, h⟩
    exact first_of_spells h hs

/-! ## What is waited for -/

theorem literal_eq_wanting {m : LiteralMarker} {data : Bytes}
    (h : data.length < m.length ∨ data = []) :
    literal m data = .wanting (.literal (m.length - data.length) m.synchronising) := by
  have hlen : (data.take m.length).length = min m.length data.length := List.length_take
  have hmin : m.length - (data.take m.length).length = m.length - data.length := by omega
  have hshort : (data.take m.length).length < m.length ∨ data.isEmpty :=
    h.imp (fun hlt => by omega) List.isEmpty_iff.2
  unfold literal
  simp only [if_pos hshort, hmin]

theorem of_literal_eq_wanting {m : LiteralMarker} {data : Bytes} {needs : Needs}
    (h : literal m data = .wanting needs) :
    needs = .literal (m.length - data.length) m.synchronising
      ∧ (data.length < m.length ∨ data = []) := by
  have hshort : data.length < m.length ∨ data = [] := by
    by_contra hnot
    rw [not_or] at hnot
    have hlen : (data.take m.length).length = min m.length data.length := List.length_take
    have hfull : ¬((data.take m.length).length < m.length ∨ data.isEmpty) :=
      not_or_intro (by omega) (mt List.isEmpty_iff.1 hnot.2)
    unfold literal at h
    simp only [if_neg hfull] at h
    cases h
  rw [literal_eq_wanting hshort] at h
  exact ⟨(Lexed.wanting.inj h).symm, hshort⟩

/-- Only after a marker so many more bytes are waited for. -/
theorem first_ne_wanting_of_not_isPlain {maxLiteral n : Nat} {b : UInt8} {s : Bytes}
    {synchronising : Bool} (hb : ¬IsPlain b) :
    first maxLiteral b s ≠ .wanting (.literal n synchronising) := by
  intro h
  rcases eq_of_not_isPlain hb with rfl | rfl | rfl | rfl | rfl | rfl
  · cases h
  · -- a carriage return at the end may be half of a line end, and one more line is waited for
    unfold first at h
    rw [if_neg (by decide), if_pos rfl] at h
    split at h <;> cases h
  · cases h
  · cases h
  · cases h
  · rw [first_quote] at h
    split at h <;> cases h

/-- A literal is waited for when its marker is there, and not all of its data. -/
theorem marker_of_first_wanting {maxLiteral n : Nat} {b : UInt8} {s : Bytes} {synchronising : Bool}
    (h : first maxLiteral b s = .wanting (.literal n synchronising)) :
    ∃ m : LiteralMarker, ∃ text data, m.Announces text ∧ m.length ≤ maxLiteral
      ∧ b :: s = text ++ data ∧ n = m.length - data.length ∧ synchronising = m.synchronising
      ∧ (data.length < m.length ∨ data = []) := by
  have hb : IsPlain b := by
    by_contra hb
    exact first_ne_wanting_of_not_isPlain hb h
  rw [first_of_isPlain hb] at h
  split at h
  · next binary after hbegin =>
    split at h
    · cases h
    · next m data hread =>
      split at h
      · cases h
      · next hfit =>
        obtain ⟨hneeds, hshort⟩ := of_literal_eq_wanting h
        obtain ⟨rfl, rfl⟩ := by simpa only [Needs.literal.injEq] using hneeds
        obtain ⟨hbin, tail, rfl, htail⟩ := LiteralMarker.read_eq_ok_iff.1 hread
        refine ⟨m, LiteralMarker.opening m.binary ++ tail, data, ⟨tail, htail, rfl⟩, by omega, ?_,
          rfl, rfl, hshort⟩
        rw [LiteralMarker.begin?_eq_some_iff.1 hbegin, hbin, List.append_assoc]
  · split at h <;> cases h

end Lexeme

end MailProtocol.Imap
