import MailProtocol.Text.Utf8
import Mathlib.Tactic.SplitIfs

/-!
# Encoded text is read back

A decoder that stands between characters reads the bytes of a character as that character
(`run_encodeChar`), so a text is read back from its bytes (`readLossy_encode`). The bytes below
`0x80` are characters of the text themselves (`exists_char_of_mem_encode`), and texts are in order
just as their bytes are (`encode_lt_encode`).
-/

namespace MailProtocol.Utf8

theorem toNat_toUInt8 {n : Nat} (h : n < 256) : n.toUInt8.toNat = n := by
  rw [Nat.toUInt8_eq, UInt8.toNat_ofNat']
  exact Nat.mod_eq_of_lt h

/-- A continuation byte carries six bits. -/
theorem toNat_continuation (n : Nat) : (continuation n).toNat = 0x80 + n % 64 :=
  toNat_toUInt8 (by omega)

namespace Decoder

variable {done : List (Option Char)} {d d' : Decoder} {b : UInt8} {rest : Bytes}

/-- Inside of a character nothing is finished. -/
theorem run_of_silent (h : d.step b = ([], d')) : run done d (b :: rest) = run done d' rest := by
  rw [run, h]
  rfl

theorem run_of_char {c : Char} (h : d.step b = ([some c], d')) :
    run done d (b :: rest) = run (some c :: done) d' rest := by
  rw [run, h]
  rfl

/-! ## The first byte of a character -/

/-- The ranges of the first byte, as numbers. -/
theorem step_start (b : UInt8) : start.step b =
    if b.toNat < 0x80 then ([some (Char.ofNat b.toNat)], start)
    else if b.toNat < 0xC2 then ([none], start)
    else if b.toNat < 0xE0 then ([], inside 1 (b.toNat - 0xC0) 0x80 0xBF)
    else if b.toNat = 0xE0 then ([], inside 2 0 0xA0 0xBF)
    else if b.toNat = 0xED then ([], inside 2 0xD 0x80 0x9F)
    else if b.toNat < 0xF0 then ([], inside 2 (b.toNat - 0xE0) 0x80 0xBF)
    else if b.toNat = 0xF0 then ([], inside 3 0 0x90 0xBF)
    else if b.toNat < 0xF4 then ([], inside 3 (b.toNat - 0xF0) 0x80 0xBF)
    else if b.toNat = 0xF4 then ([], inside 3 4 0x80 0x8F)
    else ([none], start) := by
  show begin b = _
  unfold begin
  simp only [UInt8.lt_iff_toNat_lt, ← UInt8.toNat_inj]
  rfl

/-- A character of two bytes is begun. -/
theorem step_two (h : 0xC2 ≤ b.toNat ∧ b.toNat < 0xE0) :
    start.step b = ([], inside 1 (b.toNat - 0xC0) 0x80 0xBF) := by
  rw [step_start, if_neg (by omega), if_neg (by omega), if_pos h.2]

/-- A character of three bytes is begun. Its second byte is bounded so that the character is not
written too long and is no surrogate. -/
theorem step_three (h : 0xE0 ≤ b.toNat ∧ b.toNat < 0xF0) :
    ∃ low high, start.step b = ([], inside 2 (b.toNat - 0xE0) low high)
      ∧ low.toNat = (if b.toNat = 0xE0 then 0xA0 else 0x80)
      ∧ high.toNat = if b.toNat = 0xED then 0x9F else 0xBF := by
  rw [step_start, if_neg (by omega), if_neg (by omega), if_neg (by omega)]
  by_cases h0 : b.toNat = 0xE0
  · exact ⟨0xA0, 0xBF, by rw [h0]; rfl, by rw [h0]; rfl, by rw [h0]; rfl⟩
  · by_cases hD : b.toNat = 0xED
    · exact ⟨0x80, 0x9F, by rw [hD]; rfl, by rw [hD]; rfl, by rw [hD]; rfl⟩
    · refine ⟨0x80, 0xBF, ?_, by rw [if_neg h0]; rfl, by rw [if_neg hD]; rfl⟩
      rw [if_neg h0, if_neg hD, if_pos h.2]

/-- A character of four bytes is begun. Its second byte is bounded so that the character is not
written too long and its number is below `0x110000`. -/
theorem step_four (h : 0xF0 ≤ b.toNat ∧ b.toNat < 0xF5) :
    ∃ low high, start.step b = ([], inside 3 (b.toNat - 0xF0) low high)
      ∧ low.toNat = (if b.toNat = 0xF0 then 0x90 else 0x80)
      ∧ high.toNat = if b.toNat = 0xF4 then 0x8F else 0xBF := by
  rw [step_start, if_neg (by omega), if_neg (by omega), if_neg (by omega), if_neg (by omega),
    if_neg (by omega), if_neg (by omega)]
  by_cases h0 : b.toNat = 0xF0
  · exact ⟨0x90, 0xBF, by rw [h0]; rfl, by rw [h0]; rfl, by rw [h0]; rfl⟩
  · by_cases h4 : b.toNat = 0xF4
    · exact ⟨0x80, 0x8F, by rw [h4]; rfl, by rw [h4]; rfl, by rw [h4]; rfl⟩
    · refine ⟨0x80, 0xBF, ?_, by rw [if_neg h0]; rfl, by rw [if_neg h4]; rfl⟩
      rw [if_neg h0, if_pos (by omega)]

/-! ## Further bytes of a character -/

/-- A byte in the range adds six bits to the value. -/
theorem step_inside {owed value : Nat} {low high : UInt8}
    (hb : low.toNat ≤ b.toNat ∧ b.toNat ≤ high.toNat) : (inside owed value low high).step b =
      if owed ≤ 1 then ([some (Char.ofNat (64 * value + (b.toNat - 0x80)))], start)
      else ([], inside (owed - 1) (64 * value + (b.toNat - 0x80)) 0x80 0xBF) := by
  have hrange : low ≤ b ∧ b ≤ high := by
    rw [UInt8.le_iff_toNat_le, UInt8.le_iff_toNat_le]
    exact hb
  simp only [step, if_pos hrange]

theorem continuation_range (n : Nat) : (0x80 : UInt8).toNat ≤ (continuation n).toNat
    ∧ (continuation n).toNat ≤ (0xBF : UInt8).toNat := by
  rw [toNat_continuation]
  show 0x80 ≤ 0x80 + n % 64 ∧ 0x80 + n % 64 ≤ 0xBF
  omega

/-! ## Characters -/

/-- Between characters the bytes of a character are read as that character. -/
theorem run_encodeChar (c : Char) (done : List (Option Char)) (rest : Bytes) :
    run done start (encodeChar c ++ rest) = run (some c :: done) start rest := by
  have hvalid : c.toNat < 0xD800 ∨ 0xDFFF < c.toNat ∧ c.toNat < 0x110000 := c.valid
  have hchar : Char.ofNat c.toNat = c := Char.ofNat_toNat c
  unfold encodeChar
  generalize c.toNat = n at hvalid hchar
  simp only
  by_cases h1 : n < 0x80
  · have hfirst : n.toUInt8.toNat = n := toNat_toUInt8 (by omega)
    rw [if_pos h1]
    refine run_of_char ?_
    rw [step_start, hfirst, if_pos h1, hchar]
  by_cases h2 : n < 0x800
  · have hfirst : (0xC0 + n / 64).toUInt8.toNat = 0xC0 + n / 64 := toNat_toUInt8 (by omega)
    rw [if_neg h1, if_pos h2]
    refine (run_of_silent (step_two (by omega))).trans (run_of_char ?_)
    rw [step_inside (continuation_range n), toNat_continuation, hfirst, if_pos (Nat.le_refl 1)]
    rw [show 64 * (0xC0 + n / 64 - 0xC0) + (0x80 + n % 64 - 0x80) = n from by omega, hchar]
  by_cases h3 : n < 0x10000
  · have hfirst : (0xE0 + n / 4096).toUInt8.toNat = 0xE0 + n / 4096 := toNat_toUInt8 (by omega)
    obtain ⟨low, high, hstep, hlow, hhigh⟩ :=
      step_three (b := (0xE0 + n / 4096).toUInt8) (by omega)
    rw [hfirst] at hstep hlow hhigh
    -- below `0x800` and among the surrogates there is nothing to be read
    have hrange : low.toNat ≤ (continuation (n / 64)).toNat
        ∧ (continuation (n / 64)).toNat ≤ high.toNat := by
      rw [hlow, hhigh, toNat_continuation]
      constructor <;> split <;> omega
    rw [if_neg h1, if_neg h2, if_pos h3]
    refine (run_of_silent hstep).trans ((run_of_silent (step_inside hrange)).trans
      (run_of_char ?_))
    rw [step_inside (continuation_range n), toNat_continuation, toNat_continuation,
      if_pos (Nat.le_refl 1)]
    rw [show 64 * (64 * (0xE0 + n / 4096 - 0xE0) + (0x80 + n / 64 % 64 - 0x80))
      + (0x80 + n % 64 - 0x80) = n from by omega, hchar]
  · have hfirst : (0xF0 + n / 262144).toUInt8.toNat = 0xF0 + n / 262144 := toNat_toUInt8 (by omega)
    obtain ⟨low, high, hstep, hlow, hhigh⟩ :=
      step_four (b := (0xF0 + n / 262144).toUInt8) (by omega)
    rw [hfirst] at hstep hlow hhigh
    -- below `0x10000` and from `0x110000` on there is nothing to be read
    have hrange : low.toNat ≤ (continuation (n / 4096)).toNat
        ∧ (continuation (n / 4096)).toNat ≤ high.toNat := by
      rw [hlow, hhigh, toNat_continuation]
      constructor <;> split <;> omega
    rw [if_neg h1, if_neg h2, if_neg h3]
    refine (run_of_silent hstep).trans ((run_of_silent (step_inside hrange)).trans
      ((run_of_silent (step_inside (continuation_range (n / 64)))).trans (run_of_char ?_)))
    rw [step_inside (continuation_range n), toNat_continuation, toNat_continuation,
      toNat_continuation, if_pos (Nat.le_refl 1)]
    rw [show 64 * (64 * (64 * (0xF0 + n / 262144 - 0xF0) + (0x80 + n / 4096 % 64 - 0x80))
      + (0x80 + n / 64 % 64 - 0x80)) + (0x80 + n % 64 - 0x80) = n from by omega, hchar]

/-- Between characters the bytes of a text are read as its characters. -/
theorem run_flatMap_encodeChar (l : List Char) (done : List (Option Char)) :
    run done start (l.flatMap encodeChar) = done.reverse ++ l.map some := by
  induction l generalizing done with
  | nil => rfl
  | cons c l ih =>
    rw [List.flatMap_cons, run_encodeChar, ih]
    simp

end Decoder

/-- The bytes of a text are valid, and read as the text. -/
theorem readLossy_encode (s : String) : readLossy (encode s) = s := by
  have hdecode : decode (encode s) = s.toList.map some :=
    Decoder.run_flatMap_encodeChar s.toList []
  rw [readLossy, hdecode, List.map_map]
  have hid : ((fun o : Option Char => o.getD '\uFFFD') ∘ some) = id := rfl
  rw [hid, List.map_id, String.ofList_toList]

/-! ## Bytes of a text -/

theorem toNat_lt (c : Char) : c.toNat < 0x110000 := by
  rcases c.valid with hlow | ⟨-, hhigh⟩
  · exact Nat.lt_trans hlow (by decide)
  · exact hhigh

/-- A byte below `0x80` is a character by itself. -/
theorem toNat_of_mem_encodeChar {c : Char} {b : UInt8} (h : b ∈ encodeChar c)
    (hb : b.toNat < 0x80) : c.toNat = b.toNat := by
  have htail (n : Nat) : b ≠ continuation n := by
    rintro rfl
    rw [toNat_continuation] at hb
    omega
  have hvalid := toNat_lt c
  unfold encodeChar at h
  generalize c.toNat = n at hvalid h
  simp only at h
  split at h
  · obtain rfl := List.mem_singleton.1 h
    exact (toNat_toUInt8 (by omega)).symm
  · split at h
    · simp only [List.mem_cons, htail, List.not_mem_nil, or_false] at h
      rw [h, toNat_toUInt8 (by omega)] at hb
      omega
    · split at h
      · simp only [List.mem_cons, htail, List.not_mem_nil, or_false] at h
        rw [h, toNat_toUInt8 (by omega)] at hb
        omega
      · simp only [List.mem_cons, htail, List.not_mem_nil, or_false] at h
        rw [h, toNat_toUInt8 (by omega)] at hb
        omega

theorem exists_char_of_mem_encode {s : String} {b : UInt8} (h : b ∈ encode s)
    (hb : b.toNat < 0x80) : ∃ c ∈ s.toList, c.toNat = b.toNat := by
  obtain ⟨c, hc, hmem⟩ := List.mem_flatMap.1 h
  exact ⟨c, hc, toNat_of_mem_encodeChar hmem hb⟩

/-- A character that is not in a text leaves its byte out of the text's encoding. -/
theorem notMem_encode {s : String} {b : UInt8} {c : Char} (hc : c.toNat = b.toNat)
    (hb : b.toNat < 0x80) (h : ∀ x ∈ s.toList, x ≠ c) : b ∉ encode s := by
  intro hmem
  obtain ⟨x, hx, hxb⟩ := exists_char_of_mem_encode hmem hb
  exact h x hx (Char.toNat_inj.1 (hxb.trans hc.symm))

theorem encode_ne_nil {s : String} (h : s ≠ "") : encode s ≠ [] := by
  intro hnil
  have hs := readLossy_encode s
  rw [hnil] at hs
  exact h hs.symm

/-! ## The order of texts -/

theorem encodeChar_ne_nil (c : Char) : encodeChar c ≠ [] := by
  unfold encodeChar
  simp only
  split_ifs <;> exact List.cons_ne_nil _ _

/-- The bytes of a smaller character come first, whatever follows either: more bytes begin with a
greater one, and among as many bytes the first digit to the base 64 that differs decides. -/
theorem encodeChar_append_lt {c d : Char} (h : c < d) (s t : Bytes) :
    encodeChar c ++ s < encodeChar d ++ t := by
  have hlt : c.toNat < d.toNat := h
  have hvalid := toNat_lt d
  have hdigits (k : Nat) : k / 4096 = k / 64 / 64 ∧ k / 262144 = k / 64 / 64 / 64 := by
    simp only [Nat.div_div_eq_div_mul, and_self]
  unfold encodeChar
  generalize c.toNat = n, d.toNat = m at hlt hvalid
  simp only [hdigits]
  split_ifs <;>
    simp only [List.cons_append, List.nil_append, List.cons_lt_cons_iff, UInt8.lt_iff_toNat_lt,
      ← UInt8.toNat_inj, toNat_continuation, Nat.toUInt8_eq, UInt8.toNat_ofNat'] <;>
    omega

/-- Texts stand in the order of their bytes. -/
theorem encode_lt_encode {s t : String} (h : s < t) : encode s < encode t := by
  have hlist : s.toList < t.toList := h
  unfold encode
  generalize s.toList = l, t.toList = r at hlist
  induction hlist with
  | @nil d r =>
    obtain ⟨b, bs, hb⟩ := List.exists_cons_of_ne_nil (encodeChar_ne_nil d)
    rw [List.flatMap_nil, List.flatMap_cons, hb]
    exact List.nil_lt_cons _ _
  | rel h =>
    rw [List.flatMap_cons, List.flatMap_cons]
    exact encodeChar_append_lt h _ _
  | cons _ ih =>
    rw [List.flatMap_cons, List.flatMap_cons]
    exact List.append_left_lt ih

end MailProtocol.Utf8
