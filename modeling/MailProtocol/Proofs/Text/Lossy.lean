import MailProtocol.Proofs.Text.Utf8

/-!
# Text that is read lossily

Whatever the bytes are, a text is read from them, and it is empty only if there are none
(`readLossy_ne_empty`). Invalid sequences hide no separator in it: a character of several bytes is
refused if it could have been written with fewer, so a character below `0x80` of the text is a byte
of the string (`mem_of_mem_readLossy`, `ne_of_mem_readLossy`).

The decoder makes sure of that with the bounds of the next byte, as `Decoder.Above` tells.
-/

namespace MailProtocol.Utf8

namespace Decoder

/-! ## One byte -/

/-- The character that is being read will be `0x80` at least: what has been read of it and the
least next byte are enough for that. -/
def Above : Decoder → Prop
  | start => True
  | inside owed value low _ =>
    0x80 ≤ low.toNat ∧ 2 ≤ 64 * value + (low.toNat - 0x80) ∧ (owed ≤ 1 → 2 ≤ value)

/-- What may be finished with the byte `b`: an invalid sequence, the character `b`, or one that is
not below `0x80`. Zero is in the place of numbers that are no characters. -/
def MayFinish (b : UInt8) (o : Option Char) : Prop :=
  ∀ c, o = some c → c.toNat = b.toNat ∨ c.toNat = 0 ∨ 0x80 ≤ c.toNat

/-- The byte `b` has led to these characters and this decoder. -/
structure Reads (b : UInt8) (r : List (Option Char) × Decoder) : Prop where
  done : ∀ o ∈ r.1, MayFinish b o
  next : r.2.Above
  /-- The byte does not vanish. -/
  kept : r.1 ≠ [] ∨ r.2 ≠ start

variable {b : UInt8}

theorem mayFinish_none (b : UInt8) : MayFinish b none := nofun

/-- A number is that of its character, unless it is none of a character. -/
theorem toNat_ofNat_or (n : Nat) : (Char.ofNat n).toNat = n ∨ (Char.ofNat n).toNat = 0 := by
  by_cases h : n.isValidChar
  · left
    rw [Char.ofNat, dif_pos h]
    rfl
  · right
    rw [Char.ofNat, dif_neg h]
    rfl

theorem reads_char {n : Nat} (h : n = b.toNat ∨ 0x80 ≤ n) :
    Reads b ([some (Char.ofNat n)], start) where
  done := by
    refine List.forall_mem_singleton.2 fun c hc => ?_
    obtain rfl := Option.some.inj hc
    rcases toNat_ofNat_or n with hn | hn
    · rw [hn]
      exact h.imp_right .inr
    · exact .inr (.inl hn)
  next := trivial
  kept := .inl (List.cons_ne_nil _ _)

theorem reads_inside {owed value : Nat} {low high : UInt8}
    (h : (inside owed value low high).Above) : Reads b ([], inside owed value low high) where
  done := List.forall_mem_nil _
  next := h
  kept := .inr nofun

/-- An invalid sequence ends before the byte. -/
theorem Reads.cons_none {r : List (Option Char) × Decoder} (h : Reads b r) :
    Reads b (none :: r.1, r.2) where
  done := List.forall_mem_cons.2 ⟨mayFinish_none b, h.done⟩
  next := h.next
  kept := .inl (List.cons_ne_nil _ _)

theorem Reads.kept_append {r : List (Option Char) × Decoder} (h : Reads b r)
    (done : List (Option Char)) : r.1.reverse ++ done ≠ [] ∨ r.2 ≠ start := by
  refine h.kept.imp_left fun hchars hnil => hchars ?_
  exact List.reverse_eq_nil_iff.1 (List.append_eq_nil_iff.1 hnil).1

theorem reads_step_start (b : UInt8) : Reads b (start.step b) := by
  by_cases hone : b.toNat < 0x80
  · rw [step_start, if_pos hone]
    exact reads_char (.inl rfl)
  by_cases htwo : 0xC2 ≤ b.toNat ∧ b.toNat < 0xE0
  · rw [step_two htwo]
    refine reads_inside ⟨Nat.le_refl _, ?_, fun _ => ?_⟩ <;> omega
  by_cases hthree : 0xE0 ≤ b.toNat ∧ b.toNat < 0xF0
  · obtain ⟨low, high, hstep, hlow, -⟩ := step_three hthree
    rw [hstep]
    refine reads_inside ⟨?_, ?_, fun hle => absurd hle (by decide)⟩
    · rw [hlow]
      split <;> decide
    · rw [hlow]
      split <;> omega
  by_cases hfour : 0xF0 ≤ b.toNat ∧ b.toNat < 0xF5
  · obtain ⟨low, high, hstep, hlow, -⟩ := step_four hfour
    rw [hstep]
    refine reads_inside ⟨?_, ?_, fun hle => absurd hle (by decide)⟩
    · rw [hlow]
      split <;> decide
    · rw [hlow]
      split <;> omega
  · -- no character begins with any other byte
    have hinvalid : start.step b = ([none], start) := by
      by_cases hlow : b.toNat < 0xC2
      · rw [step_start, if_neg hone, if_pos hlow]
      · rw [step_start, if_neg hone, if_neg hlow, if_neg (by omega), if_neg (by omega),
          if_neg (by omega), if_neg (by omega), if_neg (by omega), if_neg (by omega),
          if_neg (by omega)]
    rw [hinvalid]
    exact ⟨List.forall_mem_singleton.2 (mayFinish_none b), trivial, .inl (List.cons_ne_nil _ _)⟩

theorem reads_step {d : Decoder} (h : d.Above) (b : UInt8) : Reads b (d.step b) := by
  cases d with
  | start => exact reads_step_start b
  | inside owed value low high =>
    obtain ⟨hlow, hvalue, howed⟩ := h
    by_cases hrange : low.toNat ≤ b.toNat ∧ b.toNat ≤ high.toNat
    · rw [step_inside hrange]
      split
      · next hlast =>
        have := howed hlast
        exact reads_char (.inr (by omega))
      · refine reads_inside ⟨Nat.le_refl _, ?_, fun _ => ?_⟩ <;> omega
    · have hout : ¬(low ≤ b ∧ b ≤ high) := by
        rwa [UInt8.le_iff_toNat_le, UInt8.le_iff_toNat_le]
      simp only [step, if_neg hout]
      exact (reads_step_start b).cons_none

/-! ## All bytes -/

/-- All that comes of a string comes of one of its bytes. -/
theorem mem_run {done : List (Option Char)} {d : Decoder} (h : d.Above) {s : Bytes} {c : Char}
    (hc : some c ∈ run done d s) :
    some c ∈ done ∨ (∃ b ∈ s, c.toNat = b.toNat) ∨ c.toNat = 0 ∨ 0x80 ≤ c.toNat := by
  induction s generalizing done d with
  | nil =>
    left
    rw [run, List.mem_append, List.mem_reverse] at hc
    refine hc.resolve_right ?_
    cases d <;> simp [finish]
  | cons b s ih =>
    have hstep := reads_step h b
    rcases ih hstep.next hc with hmem | ⟨b', hb', heq⟩ | hother
    · rw [List.mem_append, List.mem_reverse] at hmem
      rcases hmem with hmem | hmem
      · right
        rcases hstep.done _ hmem c rfl with heq | hother
        · exact .inl ⟨b, List.mem_cons_self, heq⟩
        · exact .inr hother
      · exact .inl hmem
    · exact .inr (.inl ⟨b', List.mem_cons_of_mem b hb', heq⟩)
    · exact .inr (.inr hother)

/-- What is finished or begun comes to a character in the end. -/
theorem run_ne_nil {done : List (Option Char)} {d : Decoder} (h : d.Above) (s : Bytes)
    (hkept : done ≠ [] ∨ d ≠ start) : run done d s ≠ [] := by
  induction s generalizing done d with
  | nil =>
    rw [run]
    rcases hkept with hdone | hd
    · simp [hdone]
    · cases d with
      | start => exact absurd rfl hd
      | inside owed value low high => simp [finish]
  | cons b s ih =>
    have hstep := reads_step h b
    exact ih hstep.next (hstep.kept_append done)

end Decoder

/-- A character below `0x80` in the text that is read from a string is a byte of the string. -/
theorem mem_of_mem_readLossy {s : Bytes} {b : UInt8} {c : Char} (hc : c.toNat = b.toNat)
    (hb : 0 < b.toNat ∧ b.toNat < 0x80) (h : c ∈ (readLossy s).toList) : b ∈ s := by
  rw [readLossy, String.toList_ofList, List.mem_map] at h
  obtain ⟨o, ho, hread⟩ := h
  cases o with
  | none =>
    -- the mark of an invalid sequence is above
    obtain rfl : '\uFFFD' = c := hread
    exact absurd hb.2 (by rw [← hc]; decide)
  | some c' =>
    obtain rfl : c' = c := hread
    have hstart : Decoder.start.Above := trivial
    rcases Decoder.mem_run hstart ho with hnil | ⟨b', hb', heq⟩ | hother
    · cases hnil
    · rw [hc, UInt8.toNat_inj] at heq
      rwa [heq]
    · omega

/-- A separator that is not in a string is not in the text that is read from it. -/
theorem ne_of_mem_readLossy {s : Bytes} {b : UInt8} {c : Char} (hc : c.toNat = b.toNat)
    (hb : 0 < b.toNat ∧ b.toNat < 0x80) (h : b ∉ s) : ∀ x ∈ (readLossy s).toList, x ≠ c := by
  rintro x hx rfl
  exact h (mem_of_mem_readLossy hc hb hx)

/-- Of bytes there is something to be read. -/
theorem readLossy_ne_empty {s : Bytes} (h : s ≠ []) : readLossy s ≠ "" := by
  obtain ⟨b, s, rfl⟩ := List.exists_cons_of_ne_nil h
  have hstep := Decoder.reads_step_start b
  have hrun : decode (b :: s) ≠ [] := Decoder.run_ne_nil hstep.next s (hstep.kept_append [])
  intro hempty
  rw [readLossy, String.ofList_eq_empty_iff, List.map_eq_nil_iff] at hempty
  exact hrun hempty

end MailProtocol.Utf8
