import MailProtocol.Pop3.Listing
import MailProtocol.Proofs.Bytes.Decimal
import MailProtocol.Proofs.Bytes.Fields

/-!
# Numbers in listings

The listings of the maildrop and of a message's size are read alike: the first two fields are taken
for numbers (`ofNumbers`). What is answered is told by the fields of the text and by the numbers
that these are numerals for, and every text has just one answer (`ofNumbers_eq_iff`). Two written
numbers are read as they are, whatever spaces are around them and whatever comes after them
(`readsNumbers_listings`).
-/

namespace MailProtocol.Pop3.Listing

open Bytes (Splits)
open Decimal (IsNumeral)

variable {α : Type} {make : Nat → Nat → α} {text field first second : Bytes}
  {ws more : List Bytes} {n a b : Nat} {r : Except Malformed α}

/-- Read the first two fields as numbers. -/
def ofNumbers (make : Nat → Nat → α) (text : Bytes) : Except Malformed α := do
  let (first, second) ← twoFields text
  return make (← number text first) (← number text second)

theorem dropListing_parse_eq : DropListing.parse = ofNumbers DropListing.mk := rfl

theorem scanListing_parse_eq : ScanListing.parse = ofNumbers ScanListing.mk := rfl

/-! ## Fields and numbers -/

theorem twoFields_eq_ok (h : Splits Byte.space text (first :: second :: more)) :
    twoFields text = .ok (first, second) := by
  rw [twoFields, h.fields_eq]

theorem twoFields_eq_error (h : Splits Byte.space text ws) (hlength : ws.length < 2) :
    twoFields text = .error { fault := .tooFewFields 2 ws.length, raw := text } := by
  rw [twoFields, h.fields_eq]
  rcases ws with _ | ⟨first, _ | ⟨second, more⟩⟩
  · rfl
  · rfl
  · exact absurd hlength (Nat.not_lt.2 (Nat.le_add_left 2 more.length))

theorem number_eq_ok (h : IsNumeral field n) (hn : n < 2 ^ 64) : number text field = .ok n := by
  rw [number, Decimal.read?_eq_some_iff_isNumeral.2 ⟨h, hn⟩]

theorem number_eq_error (h : ∀ n, IsNumeral field n → 2 ^ 64 ≤ n) :
    number text field = .error { fault := .invalidNumber, raw := text } := by
  rw [number, Decimal.read?_eq_none_iff.2 h]

/-- A field is the numeral of a number below the limit, or has no such number. -/
theorem number_cases (field : Bytes) :
    (∃ n, IsNumeral field n ∧ n < 2 ^ 64) ∨ ∀ n, IsNumeral field n → 2 ^ 64 ≤ n := by
  rcases hread : Decimal.read? field with _ | n
  · exact .inr (Decimal.read?_eq_none_iff.1 hread)
  · exact .inl ⟨n, Decimal.read?_eq_some_iff_isNumeral.1 hread⟩

/-! ## Answers -/

/-- What a reader of two numbers answers about a text, told by the fields of the text. -/
inductive Answers (make : Nat → Nat → α) (text : Bytes) : Except Malformed α → Prop
  | numbers {first second : Bytes} {more : List Bytes} {a b : Nat}
      (h : Splits Byte.space text (first :: second :: more)) (hfirst : IsNumeral first a)
      (hsecond : IsNumeral second b) (ha : a < 2 ^ 64) (hb : b < 2 ^ 64) :
      Answers make text (.ok (make a b))
  | tooFew {ws : List Bytes} (h : Splits Byte.space text ws) (hlength : ws.length < 2) :
      Answers make text (.error { fault := .tooFewFields 2 ws.length, raw := text })
  | noNumber {first second : Bytes} {more : List Bytes}
      (h : Splits Byte.space text (first :: second :: more))
      (hnot : (∀ n, IsNumeral first n → 2 ^ 64 ≤ n) ∨ ∀ n, IsNumeral second n → 2 ^ 64 ≤ n) :
      Answers make text (.error { fault := .invalidNumber, raw := text })

theorem ofNumbers_of_splits (h : Splits Byte.space text (first :: second :: more)) :
    ofNumbers make text = do return make (← number text first) (← number text second) := by
  rw [ofNumbers, twoFields_eq_ok h]
  rfl

theorem Answers.ofNumbers_eq (h : Answers make text r) : ofNumbers make text = r := by
  cases h with
  | numbers h hfirst hsecond ha hb =>
    rw [ofNumbers_of_splits h, number_eq_ok hfirst ha, number_eq_ok hsecond hb]
    rfl
  | tooFew h hlength =>
    rw [ofNumbers, twoFields_eq_error h hlength]
    rfl
  | @noNumber first second more h hnot =>
    rw [ofNumbers_of_splits h]
    -- the first field is read first, and the report is the same for both
    rcases number_cases first with ⟨a, hfirst, ha⟩ | hfirst
    · have hsecond := hnot.resolve_left fun hfirst' => absurd (hfirst' a hfirst) (Nat.not_le.2 ha)
      rw [number_eq_ok hfirst ha, number_eq_error hsecond]
      rfl
    · rw [number_eq_error hfirst]
      rfl

theorem answers_ofNumbers (make : Nat → Nat → α) (text : Bytes) :
    Answers make text (ofNumbers make text) := by
  have hanswer : ∃ r, Answers make text r := by
    have h := Bytes.splits_fields Byte.space text
    generalize text.fields Byte.space = ws at h
    rcases ws with _ | ⟨first, _ | ⟨second, more⟩⟩
    · exact ⟨_, .tooFew h (by decide)⟩
    · exact ⟨_, .tooFew h (by simp)⟩
    · rcases number_cases first with ⟨a, hfirst, ha⟩ | hfirst
      · rcases number_cases second with ⟨b, hsecond, hb⟩ | hsecond
        · exact ⟨_, .numbers h hfirst hsecond ha hb⟩
        · exact ⟨_, .noNumber h (.inr hsecond)⟩
      · exact ⟨_, .noNumber h (.inl hfirst)⟩
  obtain ⟨r, hr⟩ := hanswer
  exact hr.ofNumbers_eq ▸ hr

theorem ofNumbers_eq_iff : ofNumbers make text = r ↔ Answers make text r :=
  ⟨fun h => h ▸ answers_ofNumbers make text, Answers.ofNumbers_eq⟩

/-! ## Numbers as they are written -/

theorem space_notMem_write (n : Nat) : Byte.space ∉ Decimal.write n := fun hmem =>
  absurd ((Decimal.isNumeral_write n).digits _ hmem) (by decide)

/-- Two written numbers with spaces around them are the first two fields. -/
theorem splits_spaced (a b i j : Nat) {tail : Bytes}
    (htail : tail = [] ∨ tail.head? = some Byte.space) :
    ∃ more, Splits Byte.space
      (List.replicate i Byte.space ++ (Decimal.write a ++
        (List.replicate (j + 1) Byte.space ++ (Decimal.write b ++ tail))))
      (Decimal.write a :: Decimal.write b :: more) := by
  obtain ⟨more, hb⟩ :=
    Bytes.splits_append (Decimal.write_ne_nil b) (space_notMem_write b) htail
  have ha := Splits.field (Decimal.write_ne_nil a) (space_notMem_write a) (hb.replicate_append j)
  exact ⟨more, ha.replicate_append i⟩

/-- The text in which two numbers stand, with `i` spaces before them, `j + 1` between them and
`tail` behind them. -/
def spaced (a b : UInt64) (i j : Nat) (tail : Bytes) : Bytes :=
  List.replicate i Byte.space ++ (Decimal.write a.toNat ++
    (List.replicate (j + 1) Byte.space ++ (Decimal.write b.toNat ++ tail)))

/-- A reader of listings gives each text the answer that its fields call for, and so reads the two
numbers of a text, whatever spaces are around them and whatever fields come after them. -/
structure ReadsNumbers (parse : Bytes → Except Malformed α) (make : Nat → Nat → α) : Prop where
  answers_iff : ∀ text r, parse text = r ↔ Answers make text r
  spaced : ∀ (a b : UInt64) (i j : Nat) (tail : Bytes),
    tail = [] ∨ tail.head? = some Byte.space →
      parse (spaced a b i j tail) = .ok (make a.toNat b.toNat)

theorem readsNumbers_ofNumbers (make : Nat → Nat → α) : ReadsNumbers (ofNumbers make) make where
  answers_iff _ _ := ofNumbers_eq_iff
  spaced a b i j tail htail := by
    obtain ⟨more, h⟩ := splits_spaced a.toNat b.toNat i j htail
    exact (Answers.numbers h (Decimal.isNumeral_write _) (Decimal.isNumeral_write _) a.toNat_lt
      b.toNat_lt).ofNumbers_eq

/-- Numbers are read exactly, up to the limit: a string is read as the number that it is a numeral
for, and both kinds of listings as the numbers that their fields are numerals for. -/
theorem readsNumbers_listings :
    (∀ s n, Decimal.read? s = some n ↔ IsNumeral s n ∧ n < 2 ^ 64)
      ∧ ReadsNumbers DropListing.parse DropListing.mk
      ∧ ReadsNumbers ScanListing.parse ScanListing.mk :=
  ⟨fun _ _ => Decimal.read?_eq_some_iff_isNumeral,
    dropListing_parse_eq ▸ readsNumbers_ofNumbers DropListing.mk,
    scanListing_parse_eq ▸ readsNumbers_ofNumbers ScanListing.mk⟩

/-- Zeros in front, more spaces than are needed, and the largest number that is read. -/
example : DropListing.parse (Bytes.ascii " 007  18446744073709551615 8")
    = .ok ⟨7, 18446744073709551615⟩ := by decide +kernel

end MailProtocol.Pop3.Listing
