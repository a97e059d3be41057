import MailProtocol.Imap.Response.Writer
import MailProtocol.Proofs.Imap.ItemRoundTrip
import MailProtocol.Proofs.Imap.Kind
import MailProtocol.Proofs.Text.Utf8

/-!
# Written responses are read back

A client reads a response as the server that wrote it meant it (`parse_write_response`), whatever
the server sends next. Only the name of a code may come back in another spelling (`Response.Same`),
the one in which it is registered (`Response.resolved`).

What may stand in a response is told by `Response.WellFormed`: a text without a code must not look
as if it had one, a code ends at its first bracket, and data must not begin like a status.
-/

namespace MailProtocol

namespace Imap

/-! ## Responses up to the spelling of their codes -/

/-- The same code, perhaps in another spelling. -/
def Code.Same (c d : Code) : Prop := c.token.same d.token = true ∧ c.args = d.args

/-- The same text, and codes that are the same. -/
structure StatusText.Same (s t : StatusText) : Prop where
  code : Option.Rel Code.Same s.code t.code
  text : s.text = t.text

/-- The same condition, and texts that are the same. -/
structure Status.Same (s t : Status) : Prop where
  condition : s.condition = t.condition
  text : s.text.Same t.text

/-- Equal responses, but for the spelling of a code. -/
inductive Response.Same : Response → Response → Prop
  | tagged (tag : Bytes) {s t : Status} (h : s.Same t) : Same (.tagged tag s) (.tagged tag t)
  | untagged {s t : Status} (h : s.Same t) : Same (.untagged s) (.untagged t)
  | data (items : List Item) : Same (.data items) (.data items)
  | continuation (text : Bytes) : Same (.continuation text) (.continuation text)

/-- The code as it is read back, with its name in the spelling that is registered. -/
def Code.resolved (c : Code) : Code := { c with token := ResponseCode.ofName c.token.name }

/-- The text as it is read back. -/
def StatusText.resolved (s : StatusText) : StatusText := { s with code := s.code.map Code.resolved }

/-- The status as it is read back. -/
def Status.resolved (s : Status) : Status := { s with text := s.text.resolved }

/-- The response as it is read back. -/
def Response.resolved : Response → Response
  | tagged tag status => tagged tag status.resolved
  | untagged status => untagged status.resolved
  | data items => data items
  | continuation text => continuation text

theorem Code.same_resolved (c : Code) : c.resolved.Same c :=
  ⟨ResponseCode.registry.same_lookupOrCreate c.token, rfl⟩

theorem StatusText.same_resolved (s : StatusText) : s.resolved.Same s := by
  obtain ⟨code, text⟩ := s
  refine ⟨?_, rfl⟩
  cases code with
  | none => exact .none
  | some c => exact .some c.same_resolved

theorem Response.same_resolved (r : Response) : r.resolved.Same r := by
  cases r with
  | tagged tag status => exact .tagged tag ⟨rfl, status.text.same_resolved⟩
  | untagged status => exact .untagged ⟨rfl, status.text.same_resolved⟩
  | data items => exact .data items
  | continuation text => exact .continuation text

/-! ## Responses that can be written -/

/-- The code can be written so that it is read as itself: neither its name nor its arguments hold
the bracket that ends it, and its arguments are no literals. -/
structure Code.WellFormed (maxLiteral : Nat) (c : Code) : Prop where
  name_ne : c.token.name ≠ ""
  name : ∀ x ∈ c.token.name.toList, x ≠ ' ' ∧ x ≠ ']' ∧ x ≠ '\n'
  args : Item.AllWellFormed maxLiteral c.args
  noLiteral : Item.anyLiteral c.args = false
  noBracket : Byte.closeBracket ∉ (Item.writeAll .inline c.args).concat

/-- The text stays on its line, and does not look as if a code came first if there is none. -/
structure StatusText.WellFormed (maxLiteral : Nat) (s : StatusText) : Prop where
  text : Byte.lf ∉ s.text
  code : ∀ c, s.code = some c → c.WellFormed maxLiteral
  noCode : s.code = none → s.text.head? ≠ some Byte.openBracket

/-- The response can be written so that it is read as itself. -/
inductive Response.WellFormed (maxLiteral : Nat) : Response → Prop
  | tagged {tag : Bytes} {status : Status} (htag : IsTag tag) (hne : tag ≠ untaggedTag)
    (hstatus : status.text.WellFormed maxLiteral) : WellFormed maxLiteral (.tagged tag status)
  | untagged {status : Status} (hstatus : status.text.WellFormed maxLiteral) :
    WellFormed maxLiteral (.untagged status)
  | data {items : List Item} (hitems : Item.AllWellFormed maxLiteral items)
    (hfirst : ∀ s, items.head? = some (.atom s) →
      ∀ condition : Condition, Bytes.eqIgnoreCase condition.word s = false) :
    WellFormed maxLiteral (.data items)
  | continuation {text : Bytes} (htext : Byte.lf ∉ text) :
    WellFormed maxLiteral (.continuation text)

/-! ## Codes -/

namespace Item

mutual

/-- Items without literals stay on their line. -/
theorem lf_notMem_write (maxLiteral : Nat) (mode : LiteralMode) :
    ∀ x : Item, x.WellFormed maxLiteral → x.hasLiteral = false → Byte.lf ∉ (x.write mode).concat
  | .atom s, hx, _ => by
    rw [write, Segments.concat_ofBytes]
    exact hx.2.1.lf_notMem
  | .quoted s, hx, _ => by
    rw [write, Segments.concat_ofBytes, writeQuoted, List.mem_cons, List.mem_append, not_or, not_or]
    exact ⟨by decide, (quotedText_escape hx).lf_notMem, by decide⟩
  | .literal s binary, _, hliteral => by simp [hasLiteral] at hliteral
  | .nil, _, _ => by
    rw [write, Segments.concat_ofBytes]
    decide
  | .list xs, hx, hliteral => by
    rw [hasLiteral] at hliteral
    rw [write, Segments.concat_append, Segments.concat_append, Segments.concat_ofBytes,
      Segments.concat_ofBytes, List.mem_append, List.mem_append, not_or, not_or]
    exact ⟨⟨by decide, lf_notMem_writeAll maxLiteral mode xs hx hliteral⟩, by decide⟩

theorem lf_notMem_writeAll (maxLiteral : Nat) (mode : LiteralMode) :
    ∀ xs : List Item, AllWellFormed maxLiteral xs → anyLiteral xs = false →
      Byte.lf ∉ (writeAll mode xs).concat
  | [], _, _ => by simp [writeAll, Segments.concat_empty]
  | x :: xs, hxs, hliteral => by
    rw [anyLiteral, Bool.or_eq_false_iff] at hliteral
    rw [writeAll, Segments.concat_append, List.mem_append, not_or]
    exact ⟨lf_notMem_write maxLiteral mode x hxs.1 hliteral.1,
      lf_notMem_writeMore maxLiteral mode xs hxs.2 hliteral.2⟩

theorem lf_notMem_writeMore (maxLiteral : Nat) (mode : LiteralMode) :
    ∀ xs : List Item, AllWellFormed maxLiteral xs → anyLiteral xs = false →
      Byte.lf ∉ (writeMore mode xs).concat
  | [], _, _ => by simp [writeMore, Segments.concat_empty]
  | x :: xs, hxs, hliteral => by
    rw [anyLiteral, Bool.or_eq_false_iff] at hliteral
    rw [writeMore, Segments.concat_append, Segments.concat_append, Segments.concat_ofBytes,
      List.mem_append, List.mem_append, not_or, not_or]
    exact ⟨⟨by decide, lf_notMem_write maxLiteral mode x hxs.1 hliteral.1⟩,
      lf_notMem_writeMore maxLiteral mode xs hxs.2 hliteral.2⟩

end

end Item

/-- What stands between the brackets of a code. -/
def Code.inner (c : Code) : Bytes :=
  Utf8.encode c.token.name ++ (Item.writeMore .inline c.args).concat

theorem Code.concat_write (c : Code) :
    c.write.concat = Byte.space :: Byte.openBracket :: (c.inner ++ [Byte.closeBracket]) := by
  rw [Code.write, Segments.concat_append, Segments.concat_append, Segments.concat_ofBytes,
    Segments.concat_ofBytes]
  simp [Code.inner]

namespace Code.WellFormed

variable {maxLiteral : Nat} {c : Code}

theorem closeBracket_notMem (h : c.WellFormed maxLiteral) : Byte.closeBracket ∉ c.inner := by
  rw [inner, List.mem_append, not_or]
  refine ⟨Utf8.notMem_encode (c := ']') rfl (by decide) fun x hx => (h.name x hx).2.1, ?_⟩
  have hargs := h.noBracket
  cases hc : c.args with
  | nil => simp [Item.writeMore, Segments.concat_empty]
  | cons x xs =>
    rw [hc] at hargs
    rw [concat_writeMore_cons]
    exact List.not_mem_cons_of_ne_of_not_mem (by decide) hargs

theorem lf_notMem (h : c.WellFormed maxLiteral) : Byte.lf ∉ c.inner := by
  rw [inner, List.mem_append, not_or]
  exact ⟨Utf8.notMem_encode (c := '\n') rfl (by decide) fun x hx => (h.name x hx).2.2,
    Item.lf_notMem_writeMore maxLiteral .inline c.args h.args h.noLiteral⟩

/-- A code is read back, perhaps in another spelling. -/
theorem parse_inner (h : c.WellFormed maxLiteral) :
    Code.parse maxLiteral c.inner = .ok c.resolved := by
  have hspace : Byte.space ∉ Utf8.encode c.token.name :=
    Utf8.notMem_encode (c := ' ') rfl (by decide) fun x hx => (h.name x hx).1
  have hne : (Utf8.encode c.token.name).isEmpty = false :=
    List.isEmpty_eq_false_iff.2 (Utf8.encode_ne_nil h.name_ne)
  -- the name ends at the first space, or with the code
  unfold Code.parse inner resolved
  cases hc : c.args with
  | nil =>
    obtain ⟨htake, hdrop⟩ := Bytes.takeWhile_ne_append hspace (t := []) (.inl rfl)
    rw [Item.writeMore, Segments.concat_empty]
    simp only [htake, hdrop, hne, Utf8.readLossy_encode, Bool.false_eq_true, if_false]
  | cons x xs =>
    obtain ⟨htake, hdrop⟩ := Bytes.takeWhile_ne_append hspace
      (t := Byte.space :: (Item.writeAll .inline (x :: xs)).concat) (.inr rfl)
    have hparse := parse_writeAll (hc ▸ h.args) .inline []
    rw [List.append_nil] at hparse
    rw [concat_writeMore_cons]
    simp only [htake, hdrop, hne, Utf8.readLossy_encode, Bool.false_eq_true, if_false,
      Code.parseArgs, hparse]
    rfl

end Code.WellFormed

/-! ## Statuses -/

namespace StatusText

/-- A text after the space that sets it off, or nothing if there is no text. -/
def spaced (text : Bytes) : Bytes := if text.isEmpty then [] else Byte.space :: text

/-- What is written after the condition of a status. -/
def written (s : StatusText) : Bytes :=
  ((s.code.map Code.write).getD .empty).concat ++ spaced s.text

theorem dropSpace_spaced (text : Bytes) : dropSpace (spaced text) = text := by
  cases text <;> rfl

theorem written_none (text : Bytes) : written { text } = spaced text := rfl

theorem written_some (c : Code) (text : Bytes) : written { code := some c, text }
    = Byte.space :: Byte.openBracket :: (c.inner ++ Byte.closeBracket :: spaced text) := by
  show c.write.concat ++ spaced text = _
  rw [Code.concat_write, List.cons_append, List.cons_append, List.append_assoc]
  rfl

theorem parse_of_head? {maxLiteral : Nat} {s : Bytes}
    (h : (dropSpace s).head? ≠ some Byte.openBracket) :
    parse maxLiteral s = .ok { text := dropSpace s } := by
  unfold parse
  split
  · next hs => exact absurd (by rw [hs]; rfl) h
  · rfl

/-- A text behind a code is read back with the code. -/
theorem parse_of_code {maxLiteral : Nat} {inner : Bytes} (h : Byte.closeBracket ∉ inner)
    {c : Code} (hc : Code.parse maxLiteral inner = .ok c) (text : Bytes) :
    parse maxLiteral
        (Byte.space :: Byte.openBracket :: (inner ++ Byte.closeBracket :: spaced text))
      = .ok { code := some c, text } := by
  obtain ⟨htake, hdrop⟩ :=
    Bytes.takeWhile_ne_append h (t := Byte.closeBracket :: spaced text) (.inr rfl)
  unfold parse
  split
  · next inner' hinner =>
    obtain rfl : _ = inner' := List.tail_eq_of_cons_eq hinner
    rw [hdrop, htake, hc]
    show Except.ok _ = _
    rw [dropSpace_spaced]
  · next hinner => exact absurd rfl (hinner _)

namespace WellFormed

variable {maxLiteral : Nat} {s : StatusText}

/-- The text of a status is read back. -/
theorem parse_written (h : s.WellFormed maxLiteral) :
    StatusText.parse maxLiteral s.written = .ok s.resolved := by
  obtain ⟨code, text⟩ := s
  cases code with
  | none =>
    have hhead := h.noCode rfl
    rw [← dropSpace_spaced text] at hhead
    rw [written_none, parse_of_head? hhead, dropSpace_spaced]
    rfl
  | some c =>
    have hc := h.code c rfl
    rw [written_some]
    exact parse_of_code hc.closeBracket_notMem hc.parse_inner text

theorem lf_notMem_written (h : s.WellFormed maxLiteral) : Byte.lf ∉ s.written := by
  obtain ⟨code, text⟩ := s
  have htext : Byte.lf ∉ spaced text := by
    unfold spaced
    split
    · exact List.not_mem_nil
    · exact List.not_mem_cons_of_ne_of_not_mem (by decide) h.text
  cases code with
  | none => exact htext
  | some c =>
    rw [written_some, List.mem_cons, List.mem_cons, List.mem_append, List.mem_cons, not_or, not_or,
      not_or, not_or]
    exact ⟨by decide, by decide, (h.code c rfl).lf_notMem, by decide, htext⟩

end WellFormed

/-- What comes after the condition ends the word of the condition. -/
theorem endsWord_head?_written (s : StatusText) (t : Bytes) {b : UInt8}
    (h : (s.written ++ (Bytes.crlf ++ t)).head? = some b) : Line.endsWord b = true := by
  obtain ⟨code, text⟩ := s
  have hb : b = Byte.space ∨ b = Byte.cr := by
    cases code with
    | none => cases text <;> simp_all [written_none, spaced, Bytes.crlf]
    | some c => simp_all [written_some]
  rcases hb with rfl | rfl <;> rfl

end StatusText

theorem Condition.ofWord?_word (c : Condition) : Condition.ofWord? c.word = some c := by
  cases c <;> decide

theorem Status.concat_write (s : Status) : s.write.concat = s.condition.word ++ s.text.written := by
  rw [Status.write, Segments.concat_append, Segments.concat_append, Segments.concat_ofBytes,
    List.append_assoc, StatusText.written, StatusText.spaced]
  split <;> simp [Segments.concat_empty, Segments.concat_ofBytes]

namespace Response

/-- A status is read back under its tag. -/
theorem parse_status {maxLiteral : Nat} {tag : Bytes} (htag : IsTag tag) {status : Status}
    (h : status.text.WellFormed maxLiteral) (t : Bytes) :
    parse maxLiteral (tag ++ Byte.space :: (status.write.concat ++ (Bytes.crlf ++ t)))
      = (false, .ok (.complete (ofStatus tag status.resolved) t)) := by
  obtain ⟨condition, text⟩ := status
  have hword : ∀ b ∈ condition.word, Line.endsWord b = false := by
    cases condition <;> decide +kernel
  have hkind := afterTag_of_condition tag hword
    (fun b => StatusText.endsWord_head?_written text t) condition.ofWord?_word
  rw [Status.concat_write, List.append_assoc]
  rw [← kind_tag htag] at hkind
  rw [parse, hkind]
  simp only [parseStatus_line h.lf_notMem_written h.parse_written]
  rfl

end Response

/-! ## Data -/

/-- Bytes that no condition has, each in one case only. -/
def notInConditions : Bytes :=
  [Byte.openBracket, Byte.quote, Byte.openBrace, Byte.tilde, Byte.openParen]

theorem Condition.ofWord?_eq_none {s : Bytes}
    (h : ∀ c : Condition, Bytes.eqIgnoreCase c.word s = false) : Condition.ofWord? s = none := by
  rw [Condition.ofWord?, List.find?_eq_none]
  intro c _
  rw [h c]
  exact Bool.false_ne_true

theorem Condition.ofWord?_of_mem {s : Bytes} {b : UInt8} (hb : b ∈ notInConditions) (hs : b ∈ s) :
    Condition.ofWord? s = none := by
  apply Condition.ofWord?_eq_none
  intro c
  rw [Bytes.eqIgnoreCase, beq_eq_false_iff_ne]
  intro heq
  -- in the word of a condition the byte would stand as well, but for its case
  have hmem : Byte.upper b ∈ c.word.map Byte.upper := heq ▸ List.mem_map_of_mem hs
  have hnot : ∀ b ∈ notInConditions, Byte.upper b ∉ c.word.map Byte.upper := by
    cases c <;> decide +kernel
  exact hnot b hb hmem

/-- The first word of an atom is the atom, or holds the beginning of a section. -/
theorem word_atomText {s rest : Bytes} (h : AtomText s)
    (hrest : ∀ b, rest.head? = some b → Line.endsWord b = true) :
    Byte.openBracket ∈ Line.word (s ++ rest) ∨ Line.word (s ++ rest) = s := by
  induction h with
  | nil =>
    right
    exact (Line.word_append_of_head? (fun _ hb => absurd hb List.not_mem_nil) hrest).1
  | @byte b s hb _ _ ih =>
    have hword : Line.endsWord b = false := by
      obtain ⟨⟨hspace, hcr, hlf, -⟩, -⟩ := Lexeme.isPlain_of_endsAtom hb
      simp [Line.endsWord, hspace, hcr, hlf]
    rw [List.cons_append, Line.word_cons hword]
    rcases ih with ih | ih
    · left
      exact List.mem_cons_of_mem b ih
    · right
      rw [ih]
  | @bracketed inside s _ _ _ =>
    left
    rw [List.cons_append, Line.word_cons (by decide)]
    exact List.mem_cons_self

/-- Items are not taken for a condition, unless the first one is an atom that is one. -/
theorem ofWord?_word_write {maxLiteral : Nat} {x : Item} (hx : x.WellFormed maxLiteral)
    (hatom : ∀ s, x = .atom s → ∀ c : Condition, Bytes.eqIgnoreCase c.word s = false)
    (mode : LiteralMode) {rest : Bytes}
    (hrest : ∀ b, rest.head? = some b → Line.endsWord b = true) :
    Condition.ofWord? (Line.word ((x.write mode).concat ++ rest)) = none := by
  -- any other item begins with a byte that no condition has
  have hfirst {b : UInt8} (s : Bytes) (hb : b ∈ notInConditions)
      (hword : Line.endsWord b = false) : Condition.ofWord? (Line.word (b :: s)) = none := by
    apply Condition.ofWord?_of_mem hb
    rw [Line.word_cons hword]
    exact List.mem_cons_self
  cases x with
  | atom s =>
    rw [Item.write, Segments.concat_ofBytes]
    rcases word_atomText hx.2.1 hrest with hmem | heq
    · exact Condition.ofWord?_of_mem (by decide) hmem
    · rw [heq]
      exact Condition.ofWord?_eq_none (hatom s rfl)
  | quoted s =>
    rw [Item.write, Segments.concat_ofBytes]
    exact hfirst _ (by decide) rfl
  | literal s binary =>
    rw [Item.write, Item.writeLiteral, Segments.concat_append, Segments.concat_append,
      Segments.concat_ofBytes, Item.literalMarker]
    cases binary with
    | false => exact hfirst _ (by decide) rfl
    | true => exact hfirst _ (by decide) rfl
  | nil =>
    have hword : ∀ b ∈ Item.nilWord, Line.endsWord b = false := by decide +kernel
    rw [Item.write, Segments.concat_ofBytes, (Line.word_append_of_head? hword hrest).1]
    decide +kernel
  | list xs =>
    rw [Item.write, Segments.concat_append, Segments.concat_append, Segments.concat_ofBytes]
    exact hfirst _ (by decide) rfl

/-- What stands behind an item outside of lists is a space or a line end. -/
theorem endsWord_head?_writeMore (mode : LiteralMode) (xs : List Item) (t : Bytes) {b : UInt8}
    (h : ((Item.writeMore mode xs).concat ++ (Bytes.crlf ++ t)).head? = some b) :
    Line.endsWord b = true := by
  cases xs with
  | nil =>
    obtain rfl := Option.some.inj h
    rfl
  | cons x xs =>
    rw [concat_writeMore_cons] at h
    obtain rfl := Option.some.inj h
    rfl

theorem ofWord?_word_writeAll {maxLiteral : Nat} {xs : List Item}
    (hxs : Item.AllWellFormed maxLiteral xs)
    (hatom : ∀ s, xs.head? = some (.atom s) →
      ∀ c : Condition, Bytes.eqIgnoreCase c.word s = false) (mode : LiteralMode) (t : Bytes) :
    Condition.ofWord? (Line.word ((Item.writeAll mode xs).concat ++ (Bytes.crlf ++ t))) = none := by
  cases xs with
  | nil => rfl
  | cons x xs =>
    rw [Item.writeAll, Segments.concat_append, List.append_assoc]
    refine ofWord?_word_write hxs.1 ?_ mode fun b => endsWord_head?_writeMore mode xs t
    rintro s rfl
    exact hatom s rfl

/-! ## Responses -/

namespace Response

/-- The content of a response is read back in front of a line end. -/
theorem parse_writeContent_resolved {maxLiteral : Nat} {r : Response} (h : r.WellFormed maxLiteral)
    (t : Bytes) :
    parse maxLiteral (r.writeContent.concat ++ (Bytes.crlf ++ t))
      = (false, .ok (.complete r.resolved t)) := by
  cases h with
  | @tagged tag status htag hne hstatus =>
    have hparse := parse_status htag hstatus t
    rw [ofStatus, if_neg hne] at hparse
    rw [writeContent, Segments.concat_append, Segments.concat_ofBytes, List.append_assoc,
      List.append_assoc]
    exact hparse
  | @untagged status hstatus =>
    have hparse := parse_status isTag_untaggedTag hstatus t
    rw [ofStatus, if_pos rfl] at hparse
    rw [writeContent, Segments.concat_append, Segments.concat_ofBytes, List.append_assoc]
    exact hparse
  | @data items hitems hfirst =>
    -- the first item is not taken for the condition of a status
    have hkind := (kind_tag isTag_untaggedTag _).trans
      (afterTag_of_data (ofWord?_word_writeAll hitems hfirst .inline t))
    rw [writeContent, Segments.concat_append, Segments.concat_ofBytes, List.append_assoc]
    show parse _ (untaggedTag ++ Byte.space ::
      ((Item.writeAll .inline items).concat ++ (Bytes.crlf ++ t))) = _
    rw [parse, hkind]
    simp only [parseData_eq, parse_writeAll hitems, ofScan, resolved]
  | @continuation text htext =>
    rw [writeContent, Segments.concat_ofBytes, List.append_assoc]
    have hlf : Byte.lf ∉ Byte.space :: text := List.not_mem_cons_of_ne_of_not_mem (by decide) htext
    show (false, parseContinuation ((Byte.space :: text) ++ (Bytes.crlf ++ t))) = _
    rw [parseContinuation_line hlf]
    rfl

theorem parse_writeContent {maxLiteral : Nat} {r : Response} (h : r.WellFormed maxLiteral)
    (t : Bytes) :
    ∃ r', parse maxLiteral (r.writeContent.concat ++ (Bytes.crlf ++ t))
        = (false, .ok (.complete r' t)) ∧ r'.Same r :=
  ⟨r.resolved, parse_writeContent_resolved h t, r.same_resolved⟩

/-- A response that has been written is read back, whatever follows it and whatever was read before.
Only its code may come back in another spelling. -/
theorem parse_write_response (config : Config) {r : Response}
    (h : r.WellFormed config.limits.maxLiteralLength) (inData : Bool) (t : Bytes) :
    ∃ r', (grammar config).parse inData (r.write.concat ++ t)
        = (false, .ok (.complete r' t)) ∧ r'.Same r := by
  rw [write, Segments.concat_append, Segments.concat_ofBytes, List.append_assoc]
  exact parse_writeContent h t

/-- A code that is registered in another spelling, with arguments, before a text with brackets; and
data with a literal that holds a line end. -/
theorem parse_write_response_uidnext :
    let done : Response := .tagged (Bytes.ascii "A1") {
      condition := .ok
      text := {
        code := some {
          token := .fresh "uidnext"
          args := [.atom (Bytes.ascii "17"), .quoted (Bytes.ascii "a b")] }
        text := Bytes.ascii "[x] done" } }
    let fetched : Response := .data [.atom (Bytes.ascii "1"), .atom (Bytes.ascii "FETCH"),
      .list [.literal (Bytes.ascii "a\r\n") false, .nil]]
    let limit := ({} : Config).limits.maxLiteralLength
    (done.WellFormed limit ∧ fetched.WellFormed limit)
      ∧ (∃ r', (grammar {}).parse true (done.write.concat ++ Bytes.ascii "* ")
          = (false, .ok (.complete r' (Bytes.ascii "* "))) ∧ r'.Same done)
      ∧ ∃ r', (grammar {}).parse false (fetched.write.concat ++ Bytes.ascii "+ ")
          = (false, .ok (.complete r' (Bytes.ascii "+ "))) ∧ r'.Same fetched := by
  intro done fetched limit
  have hdone : done.WellFormed limit := by
    refine .tagged ⟨⟨by decide, by decide +kernel⟩, by decide⟩ (by decide) ⟨by decide, ?_, nofun⟩
    intro c hc
    obtain rfl := Option.some.inj hc
    refine ⟨by decide, by simp [Token.fresh], ⟨⟨by decide, ?_, by decide +kernel⟩, ?_, trivial⟩,
      by decide, by decide⟩
    · exact atomText_of_readAtom (by decide)
    · show ∀ b ∈ Bytes.ascii "a b", b ≠ Byte.cr ∧ b ≠ Byte.lf
      decide +kernel
  have hfetched : fetched.WellFormed limit := by
    refine .data ⟨⟨by decide, ?_, by decide⟩, ⟨by decide, ?_, by decide⟩,
      ⟨⟨by decide, by decide⟩, trivial, trivial⟩, trivial⟩ ?_
    · exact atomText_of_readAtom (by decide)
    · exact atomText_of_readAtom (by decide)
    · intro s hs condition
      obtain rfl : Bytes.ascii "1" = s := Item.atom.inj (Option.some.inj hs)
      cases condition <;> decide +kernel
  exact ⟨⟨hdone, hfetched⟩, parse_write_response {} hdone true _,
    parse_write_response {} hfetched false _⟩

end Response

end Imap

end MailProtocol
