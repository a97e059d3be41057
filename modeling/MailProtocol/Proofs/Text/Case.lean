import MailProtocol.Proofs.Text.Lossy
import MailProtocol.Text.Case
import Mathlib.Data.List.Forall2

/-!
# Case in texts and in bytes

Two texts are alike (`Text.Alike`) if they differ in nothing but the case of ASCII letters. Folding
the letters to upper case joins just these texts (`eqIgnoreCase_iff_alike`), and so does folding the
bytes that write them (`eqIgnoreCase_encode`): no byte of another character is that of a letter.

Reading bytes lossily and folding may be done in either order (`readLossy_map_upper`), for a letter
is read as itself wherever it stands, and no byte of an invalid sequence is one.
-/

namespace MailProtocol

/-! ## Texts -/

namespace Text

/-- One character, or the two cases of an ASCII letter. -/
def SameLetter (c d : Char) : Prop :=
  c = d ∨ (97 ≤ c.toNat ∧ c.toNat ≤ 122 ∧ c.toNat = d.toNat + 32)
    ∨ (97 ≤ d.toNat ∧ d.toNat ≤ 122 ∧ d.toNat = c.toNat + 32)

instance (c d : Char) : Decidable (SameLetter c d) :=
  inferInstanceAs (Decidable (_ ∨ _))

/-- The texts differ in the case of ASCII letters only. -/
def Alike (s t : String) : Prop := List.Forall₂ SameLetter s.toList t.toList

instance (s t : String) : Decidable (Alike s t) :=
  inferInstanceAs (Decidable (List.Forall₂ _ _ _))

theorem toNat_toUpper (c : Char) :
    c.toUpper.toNat = if 97 ≤ c.toNat ∧ c.toNat ≤ 122 then c.toNat - 32 else c.toNat := by
  have hrange : ('a'.val ≤ c.val ∧ c.val ≤ 'z'.val) ↔ 97 ≤ c.toNat ∧ c.toNat ≤ 122 := by
    rw [UInt32.le_iff_toNat_le, UInt32.le_iff_toNat_le]
    rfl
  unfold Char.toUpper
  split
  · next h =>
    rw [if_pos (hrange.1 h)]
    -- the difference of the cases is negative, and wraps
    show (c.val + ('A'.val - 'a'.val)).toNat = c.val.toNat - 32
    have hgap : ('A'.val - 'a'.val).toNat = 2 ^ 32 - 32 := by decide
    have hc : 97 ≤ c.val.toNat ∧ c.val.toNat ≤ 122 := hrange.1 h
    rw [UInt32.toNat_add]
    omega
  · next h => rw [if_neg (mt hrange.2 h)]

/-- A character that is no lower-case letter is its own upper-case form. -/
theorem toUpper_of_not {c : Char} (h : ¬(97 ≤ c.toNat ∧ c.toNat ≤ 122)) : c.toUpper = c := by
  rw [← Char.toNat_inj, toNat_toUpper, if_neg h]

theorem toUpper_eq_toUpper_iff {c d : Char} : c.toUpper = d.toUpper ↔ SameLetter c d := by
  rw [← Char.toNat_inj, toNat_toUpper, toNat_toUpper, SameLetter, ← Char.toNat_inj]
  split <;> split <;> omega

theorem toList_upper (s : String) : (upper s).toList = s.toList.map Char.toUpper :=
  String.toList_ofList

theorem eqIgnoreCase_iff_upper_eq {s t : String} : eqIgnoreCase s t = true ↔ upper s = upper t :=
  beq_iff_eq

/-- Folding joins the texts that are alike, and no others. -/
theorem eqIgnoreCase_iff_alike {s t : String} : eqIgnoreCase s t = true ↔ Alike s t := by
  rw [eqIgnoreCase_iff_upper_eq, ← String.toList_inj, toList_upper, toList_upper, Alike,
    ← List.forall₂_eq_eq_eq, List.forall₂_map_left_iff, List.forall₂_map_right_iff]
  simp only [toUpper_eq_toUpper_iff]

theorem alike_iff_upper_eq {s t : String} : Alike s t ↔ upper s = upper t :=
  eqIgnoreCase_iff_alike.symm.trans eqIgnoreCase_iff_upper_eq

/-- Texts that are alike have the same characters, letters apart. -/
theorem Alike.mem {s t : String} (h : Alike s t) {c : Char} (hc : ∀ d, SameLetter d c → d = c)
    (hmem : c ∈ t.toList) : c ∈ s.toList := by
  have hupper : c.toUpper ∈ (upper s).toList := by
    rw [alike_iff_upper_eq.1 h, toList_upper]
    exact List.mem_map_of_mem hmem
  rw [toList_upper, List.mem_map] at hupper
  obtain ⟨d, hd, hdc⟩ := hupper
  rwa [← hc d (toUpper_eq_toUpper_iff.1 hdc)]

theorem upper_append (s t : String) : upper (s ++ t) = upper s ++ upper t := by
  rw [← String.toList_inj]
  simp only [toList_upper, String.toList_append, List.map_append]

/-- What stands in front of both has no say. -/
theorem alike_append_left_iff {p s t : String} : Alike (p ++ s) (p ++ t) ↔ Alike s t := by
  rw [alike_iff_upper_eq, alike_iff_upper_eq, upper_append, upper_append, ← String.toList_inj,
    String.toList_append, String.toList_append, List.append_cancel_left_eq, String.toList_inj]

end Text

/-! ## Bytes of a text -/

namespace Byte

theorem toNat_upper (b : UInt8) :
    (upper b).toNat = if 97 ≤ b.toNat ∧ b.toNat ≤ 122 then b.toNat - 32 else b.toNat := by
  have hrange : 97 ≤ b ∧ b ≤ 122 ↔ 97 ≤ b.toNat ∧ b.toNat ≤ 122 := by
    rw [UInt8.le_iff_toNat_le, UInt8.le_iff_toNat_le]
    rfl
  unfold upper
  split
  · next h =>
    have hb := hrange.1 h
    have hle : (32 : UInt8) ≤ b := by
      rw [UInt8.le_iff_toNat_le]
      exact Nat.le_trans (by decide) hb.1
    rw [if_pos hb, UInt8.toNat_sub_of_le _ _ hle]
    rfl
  · next h => rw [if_neg (mt hrange.2 h)]

/-- A byte that is no lower-case letter is its own upper-case form. -/
theorem upper_of_not {b : UInt8} (h : ¬(97 ≤ b.toNat ∧ b.toNat ≤ 122)) : upper b = b := by
  rw [← UInt8.toNat_inj, toNat_upper, if_neg h]

end Byte

namespace Utf8

theorem encodeChar_toUpper (c : Char) : encodeChar c.toUpper = (encodeChar c).map Byte.upper := by
  by_cases hlow : c.toNat < 0x80
  · have hupper : c.toUpper.toNat < 0x80 := by
      rw [Text.toNat_toUpper]
      split <;> omega
    have hbyte : c.toUpper.toNat.toUInt8 = Byte.upper c.toNat.toUInt8 := by
      rw [← UInt8.toNat_inj, Byte.toNat_upper, toNat_toUInt8 (by omega), toNat_toUInt8 (by omega),
        Text.toNat_toUpper]
    simp only [encodeChar, if_pos hlow, if_pos hupper, hbyte, List.map_cons, List.map_nil]
  · -- a byte of a letter would be the whole character
    have hkept : ∀ b ∈ encodeChar c, Byte.upper b = b := fun b hb => by
      refine Byte.upper_of_not fun hletter => hlow ?_
      rw [toNat_of_mem_encodeChar hb (by omega)]
      omega
    rw [Text.toUpper_of_not (by omega), List.map_congr_left hkept, List.map_id']

/-- The bytes of the folded text are the folded bytes of the text. -/
theorem encode_upper (s : String) : encode (Text.upper s) = (encode s).map Byte.upper := by
  rw [encode, encode, Text.toList_upper, List.flatMap_map, List.map_flatMap]
  exact List.flatMap_congr fun c _ => encodeChar_toUpper c

theorem encode_inj {s t : String} : encode s = encode t ↔ s = t := by
  refine ⟨fun h => ?_, congrArg encode⟩
  rw [← readLossy_encode s, h, readLossy_encode]

/-- Two texts are compared alike by their characters and by their bytes. -/
theorem eqIgnoreCase_encode (s t : String) :
    Bytes.eqIgnoreCase (encode s) (encode t) = Text.eqIgnoreCase s t := by
  rw [Bool.eq_iff_iff, Text.eqIgnoreCase_iff_upper_eq, Bytes.eqIgnoreCase, beq_iff_eq,
    ← encode_upper, ← encode_upper, encode_inj]

/-! ## Bytes that are read lossily -/

namespace Decoder

/-- A number that is that of no lower-case letter stands for its own upper-case form. -/
theorem toUpper_ofNat {b : UInt8} (h : b.toNat < 0x80) :
    (Char.ofNat b.toNat).toUpper = Char.ofNat (Byte.upper b).toNat := by
  have hchar {n : Nat} (hn : n < 0x80) : (Char.ofNat n).toNat = n := by
    rw [Char.ofNat, dif_pos (.inl (Nat.lt_trans hn (by decide)))]
    rfl
  have hupper : (Byte.upper b).toNat < 0x80 := by
    rw [Byte.toNat_upper]
    split <;> omega
  rw [← Char.toNat_inj, Text.toNat_toUpper, hchar h, hchar hupper, Byte.toNat_upper]

/-- What is finished with a byte that is no lower-case letter is its own upper-case form. -/
theorem Reads.map_toUpper {b : UInt8} {r : List (Option Char) × Decoder} (h : Reads b r)
    (hb : ¬(97 ≤ b.toNat ∧ b.toNat ≤ 122)) : r.1.map (·.map Char.toUpper) = r.1 := by
  refine (List.map_congr_left fun o ho => ?_).trans (List.map_id _)
  cases o with
  | none => rfl
  | some c =>
    have hc := h.done _ ho c rfl
    exact congrArg some (Text.toUpper_of_not (by omega))

/-- A folded byte leads to the folded characters, and to the same decoder. -/
theorem step_upper {d : Decoder} (h : d.Above) (b : UInt8) :
    d.step (Byte.upper b) = ((d.step b).1.map (·.map Char.toUpper), (d.step b).2) := by
  by_cases hb : 97 ≤ b.toNat ∧ b.toNat ≤ 122
  · have hupper : (Byte.upper b).toNat < 0x80 := by
      rw [Byte.toNat_upper]
      split <;> omega
    have hstart : start.step (Byte.upper b)
        = ((start.step b).1.map (·.map Char.toUpper), (start.step b).2) := by
      rw [step_start, step_start, if_pos hupper, if_pos (by omega)]
      rw [List.map_singleton, Option.map_some, toUpper_ofNat (by omega)]
    cases d with
    | start => exact hstart
    | inside owed value low high =>
      -- inside of a character a letter of either case is out of place, and begins anew
      have hout {b' : UInt8} (hb' : b'.toNat < 0x80) :
          (inside owed value low high).step b'
            = (none :: (start.step b').1, (start.step b').2) := by
        refine if_neg fun hrange => ?_
        have hlow := UInt8.le_iff_toNat_le.1 hrange.1
        have habove := h.1
        omega
      rw [hout hupper, hout (by omega), hstart]
      rfl
  · rw [Byte.upper_of_not hb, (reads_step h b).map_toUpper hb]

theorem run_map_upper {d : Decoder} (h : d.Above) (done : List (Option Char)) (s : Bytes) :
    run (done.map (·.map Char.toUpper)) d (s.map Byte.upper)
      = (run done d s).map (·.map Char.toUpper) := by
  induction s generalizing done d with
  | nil =>
    have hfinish : d.finish.map (·.map Char.toUpper) = d.finish := by cases d <;> rfl
    rw [List.map_nil, run, run, List.map_append, List.map_reverse, hfinish]
  | cons b s ih =>
    rw [List.map_cons, run, run, step_upper h b]
    simp only
    rw [← List.map_reverse, ← List.map_append]
    exact ih (reads_step h b).next _

end Decoder

/-- It does not matter whether bytes are folded or what is read from them. -/
theorem readLossy_map_upper (s : Bytes) :
    readLossy (s.map Byte.upper) = Text.upper (readLossy s) := by
  have hdecode : decode (s.map Byte.upper) = (decode s).map (·.map Char.toUpper) :=
    Decoder.run_map_upper (d := .start) trivial [] s
  have hmark (o : Option Char) :
      (o.map Char.toUpper).getD '\uFFFD' = (o.getD '\uFFFD').toUpper := by cases o <;> rfl
  rw [← String.toList_inj, Text.toList_upper, readLossy, readLossy, String.toList_ofList,
    String.toList_ofList, hdecode, List.map_map, List.map_map]
  exact List.map_congr_left fun o _ => hmark o

/-- Bytes that are equal up to case are read as texts that are alike. -/
theorem alike_readLossy {s t : Bytes} (h : Bytes.eqIgnoreCase s t = true) :
    Text.Alike (readLossy s) (readLossy t) := by
  rw [Text.alike_iff_upper_eq, ← readLossy_map_upper, ← readLossy_map_upper, beq_iff_eq.1 h]

end Utf8

end MailProtocol
