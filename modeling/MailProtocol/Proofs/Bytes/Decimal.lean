import MailProtocol.Bytes.Decimal
import Mathlib.Data.List.Basic
import Mathlib.Data.Nat.Digits.Defs

/-!
# Reading and writing decimal numbers

A string is read as a number exactly if it is not empty, consists of digits and stands for a number
below the limit, and then that number is read (`read?_eq_some_iff`). Written numbers are read back
(`read?_write`).

What a string stands for is also said without reading it, by the places of its digits (`IsNumeral`).
Leading zeros do no harm, however many there are (`IsNumeral.replicate_append`).
-/

namespace MailProtocol.Decimal

/-- The number that stands for `n` followed by the digits of `s`, without a limit. -/
def valueFrom (n : Nat) (s : Bytes) : Nat := s.foldl (fun n b => 10 * n + (b.toNat - 48)) n

theorem value_eq_valueFrom (s : Bytes) : value s = valueFrom 0 s := rfl

theorem valueFrom_cons (n : Nat) (b : UInt8) (s : Bytes) :
    valueFrom n (b :: s) = valueFrom (10 * n + (b.toNat - 48)) s := by
  rw [valueFrom, valueFrom, List.foldl_cons]

/-- Further digits never make a number smaller. -/
theorem le_valueFrom (n : Nat) (s : Bytes) : n ≤ valueFrom n s := by
  induction s generalizing n with
  | nil => exact Nat.le_refl n
  | cons b s ih =>
    have := ih (10 * n + (b.toNat - 48))
    rw [valueFrom_cons]
    omega

theorem isDigit_iff {b : UInt8} : Byte.isDigit b = true ↔ 48 ≤ b.toNat ∧ b.toNat ≤ 57 := by
  rw [Byte.isDigit, Bool.and_eq_true, decide_eq_true_eq, decide_eq_true_eq, UInt8.le_iff_toNat_le,
    UInt8.le_iff_toNat_le]
  rfl

theorem push?_eq_some_iff {n m : Nat} {b : UInt8} :
    push? n b = some m ↔ Byte.isDigit b ∧ 10 * n + (b.toNat - 48) = m ∧ m < limit := by
  unfold push? digit?
  by_cases hb : Byte.isDigit b
  · by_cases hlim : 10 * n + (b.toNat - 48) < limit
    · simp only [hb, if_true, Option.bind_eq_bind, Option.bind_some, if_pos hlim, true_and,
        Option.some.injEq]
      constructor
      · rintro rfl
        exact ⟨rfl, hlim⟩
      · rintro ⟨rfl, -⟩
        rfl
    · simp only [hb, if_true, Option.bind_eq_bind, Option.bind_some, if_neg hlim, true_and,
        reduceCtorEq, false_iff]
      rintro ⟨rfl, hlt⟩
      exact hlim hlt
  · simp [hb]

/-- Digit by digit the limit is kept exactly if the whole number keeps it. -/
theorem foldlM_push?_eq_some_iff {n m : Nat} {s : Bytes} (hn : n < limit) :
    s.foldlM push? n = some m ↔ (∀ b ∈ s, Byte.isDigit b) ∧ valueFrom n s = m ∧ m < limit := by
  induction s generalizing n with
  | nil =>
    show some n = some m ↔ _
    rw [Option.some.injEq]
    constructor
    · rintro rfl
      exact ⟨by simp, rfl, hn⟩
    · rintro ⟨-, rfl, -⟩
      rfl
  | cons b s ih =>
    show (push? n b).bind (fun k => s.foldlM push? k) = some m ↔ _
    rw [Option.bind_eq_some_iff]
    constructor
    · rintro ⟨k, hk, hs⟩
      obtain ⟨hb, rfl, hlt⟩ := push?_eq_some_iff.1 hk
      obtain ⟨hall, hvalue, hm⟩ := (ih hlt).1 hs
      exact ⟨List.forall_mem_cons.2 ⟨hb, hall⟩, hvalue, hm⟩
    · rintro ⟨hall, hvalue, hm⟩
      obtain ⟨hb, hall⟩ := List.forall_mem_cons.1 hall
      -- the number grows, so it stays below the limit all the time
      have hlt : 10 * n + (b.toNat - 48) < limit := by
        have := le_valueFrom (10 * n + (b.toNat - 48)) s
        rw [valueFrom_cons] at hvalue
        omega
      exact ⟨_, push?_eq_some_iff.2 ⟨hb, rfl, hlt⟩, (ih hlt).2 ⟨hall, hvalue, hm⟩⟩

/-- What is read as a number, and as which. -/
theorem read?_eq_some_iff {s : Bytes} {n : Nat} :
    read? s = some n ↔ s ≠ [] ∧ (∀ b ∈ s, Byte.isDigit b) ∧ value s = n ∧ n < limit := by
  unfold read?
  rw [value_eq_valueFrom]
  cases s with
  | nil => simp
  | cons b s =>
    rw [if_neg (by simp), foldlM_push?_eq_some_iff (by decide)]
    simp

/-! ## Written numbers -/

theorem write_ne_nil (n : Nat) : write n ≠ [] := by
  rw [write, ne_eq, List.map_eq_nil_iff]
  exact Nat.toDigits_ne_nil

/-- A digit as a character and as a byte. -/
theorem toUInt8_of_isDigit {c : Char} (h : c.isDigit) :
    Byte.isDigit c.toUInt8 ∧ c.toUInt8.toNat = c.toNat := by
  have h48 : 48 ≤ c.toNat ∧ c.toNat ≤ 57 := by
    simpa [Char.isDigit, UInt32.le_iff_toNat_le] using h
  have heq : c.toUInt8.toNat = c.toNat := by
    show c.toNat % 256 = c.toNat
    omega
  refine ⟨isDigit_iff.2 ?_, heq⟩
  rw [heq]
  exact h48

theorem isDigit_of_mem_write {n : Nat} {b : UInt8} (h : b ∈ write n) : Byte.isDigit b := by
  obtain ⟨c, hc, rfl⟩ := List.mem_map.1 h
  exact (toUInt8_of_isDigit (Nat.isDigit_of_mem_toDigits (by decide) (by decide) hc)).1

theorem valueFrom_map_toUInt8 {l : List Char} (h : ∀ c ∈ l, c.isDigit) (n : Nat) :
    valueFrom n (l.map Char.toUInt8) = Nat.ofDigitChars 10 l n := by
  induction l generalizing n with
  | nil => rfl
  | cons c l ih =>
    obtain ⟨hc, hl⟩ := List.forall_mem_cons.1 h
    rw [List.map_cons, valueFrom_cons, (toUInt8_of_isDigit hc).2, ih hl, Nat.ofDigitChars_cons]
    rfl

theorem value_write (n : Nat) : value (write n) = n := by
  have hdigits : ∀ c ∈ Nat.toDigits 10 n, c.isDigit := fun c hc =>
    Nat.isDigit_of_mem_toDigits (by decide) (by decide) hc
  rw [value_eq_valueFrom, write, valueFrom_map_toUInt8 hdigits]
  exact Nat.ofDigitChars_ten_toDigits

/-- A written number is read back. -/
theorem read?_write {n : Nat} (h : n < limit) : read? (write n) = some n :=
  read?_eq_some_iff.2 ⟨write_ne_nil n, fun _ => isDigit_of_mem_write, value_write n, h⟩

/-! ## Numerals -/

/-- A numeral for `n`: at least one digit, with any number of zeros in front, and `n` is what the
digits add up to by their places. -/
structure IsNumeral (s : Bytes) (n : Nat) : Prop where
  ne_nil : s ≠ []
  digits : ∀ b ∈ s, 48 ≤ b.toNat ∧ b.toNat ≤ 57
  sum : Nat.ofDigits 10 (s.reverse.map fun b => b.toNat - 48) = n

/-- What has been read before a string counts for as many places more as the string has. -/
theorem valueFrom_eq_ofDigits (n : Nat) (s : Bytes) :
    valueFrom n s = Nat.ofDigits 10 (s.reverse.map fun b => b.toNat - 48) + 10 ^ s.length * n := by
  induction s generalizing n with
  | nil => simp [valueFrom]
  | cons b s ih =>
    rw [valueFrom_cons, ih, List.reverse_cons, List.map_append, Nat.ofDigits_append,
      List.map_singleton, Nat.ofDigits_singleton, List.length_map, List.length_reverse,
      List.length_cons, Nat.pow_succ]
    ring

theorem value_eq_ofDigits (s : Bytes) :
    value s = Nat.ofDigits 10 (s.reverse.map fun b => b.toNat - 48) := by
  rw [value_eq_valueFrom, valueFrom_eq_ofDigits, Nat.mul_zero, Nat.add_zero]

/-- The numerals below the limit are read, and nothing else is. -/
theorem read?_eq_some_iff_isNumeral {s : Bytes} {n : Nat} :
    read? s = some n ↔ IsNumeral s n ∧ n < 2 ^ 64 := by
  rw [read?_eq_some_iff, value_eq_ofDigits]
  constructor
  · rintro ⟨hne, hdigits, hsum, hlt⟩
    exact ⟨⟨hne, fun b hb => isDigit_iff.1 (hdigits b hb), hsum⟩, hlt⟩
  · rintro ⟨⟨hne, hdigits, hsum⟩, hlt⟩
    exact ⟨hne, fun b hb => isDigit_iff.2 (hdigits b hb), hsum, hlt⟩

/-- What is not read is no numeral, or one for a number that is too large. -/
theorem read?_eq_none_iff {s : Bytes} : read? s = none ↔ ∀ n, IsNumeral s n → 2 ^ 64 ≤ n := by
  rw [Option.eq_none_iff_forall_ne_some]
  refine forall_congr' fun n => ?_
  rw [ne_eq, read?_eq_some_iff_isNumeral, not_and, Nat.not_lt]

theorem IsNumeral.isDigit {s : Bytes} {n : Nat} (h : IsNumeral s n) :
    ∀ b ∈ s, Byte.isDigit b = true := fun b hb => isDigit_iff.2 (h.digits b hb)

theorem IsNumeral.unique {s : Bytes} {m n : Nat} (h : IsNumeral s m) (h' : IsNumeral s n) : m = n :=
  h.sum.symm.trans h'.sum

/-- Zeros in front make no difference. -/
theorem IsNumeral.replicate_append {s : Bytes} {n : Nat} (h : IsNumeral s n) (k : Nat) :
    IsNumeral (List.replicate k 48 ++ s) n := by
  refine ⟨List.append_ne_nil_of_right_ne_nil _ h.ne_nil, fun b hb => ?_, ?_⟩
  · rcases List.mem_append.1 hb with hb | hb
    · obtain rfl := List.eq_of_mem_replicate hb
      decide
    · exact h.digits b hb
  · rw [← value_eq_ofDigits, value_eq_valueFrom, valueFrom, List.foldl_append]
    have hzeros : valueFrom 0 (List.replicate k 48) = 0 := by
      induction k with
      | zero => rfl
      | succ k ih => rw [List.replicate_succ, valueFrom_cons]; exact ih
    show valueFrom (valueFrom 0 (List.replicate k 48)) s = n
    rw [hzeros, ← value_eq_valueFrom, value_eq_ofDigits, h.sum]

/-- What is written is the numeral of its number. -/
theorem isNumeral_write (n : Nat) : IsNumeral (write n) n where
  ne_nil := write_ne_nil n
  digits _ hb := isDigit_iff.1 (isDigit_of_mem_write hb)
  sum := by rw [← value_eq_ofDigits, value_write]

end MailProtocol.Decimal
