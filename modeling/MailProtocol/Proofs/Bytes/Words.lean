import MailProtocol.Line
import MailProtocol.Proofs.Bytes.Lines
import Mathlib.Data.List.Basic

/-!
# Words and lines of a fragment

A word and what ends it are cut apart where they have been put together (`word_append`). Behind the
first line feed nothing has a say in the first word (`word_append_of_lf_mem`), nor in the first line
(`first_eq_ok_iff`). A line is read just if it ends in a line end (`first_cases`).
-/

namespace MailProtocol.Line

/-- A word: not empty, and without a byte that ends words. -/
def IsWord (w : Bytes) : Prop := w ≠ [] ∧ ∀ b ∈ w, endsWord b = false

theorem word_append_afterWord (s : Bytes) : word s ++ afterWord s = s :=
  List.takeWhile_append_dropWhile

theorem endsWord_of_mem_word {s : Bytes} {b : UInt8} (h : b ∈ word s) : endsWord b = false := by
  have := List.mem_takeWhile_imp h
  simpa using this

theorem isWord_word {s : Bytes} (h : (word s).isEmpty = false) : IsWord (word s) :=
  ⟨List.isEmpty_eq_false_iff.1 h, fun _ => endsWord_of_mem_word⟩

/-- No word has a line feed. -/
theorem lf_notMem_of_endsWord {w : Bytes} (h : ∀ b ∈ w, endsWord b = false) : Byte.lf ∉ w :=
  fun hmem => absurd (h _ hmem) (by decide)

theorem word_cons {b : UInt8} (h : endsWord b = false) (s : Bytes) :
    word (b :: s) = b :: word s := by
  simp [word, h]

/-- What follows a word begins with a byte that ends it, if it has any byte. -/
theorem endsWord_of_head?_afterWord {s : Bytes} {b : UInt8} (h : (afterWord s).head? = some b) :
    endsWord b = true := by
  have hhead := List.head?_dropWhile_not (p := (!endsWord ·)) (l := s)
  rw [← afterWord, h] at hhead
  simpa using hhead

/-- A word and what ends it are cut apart again. -/
theorem word_append_of_head? {w s : Bytes} (hw : ∀ b ∈ w, endsWord b = false)
    (hs : ∀ b, s.head? = some b → endsWord b = true) :
    word (w ++ s) = w ∧ afterWord (w ++ s) = s := by
  have hkeep : ∀ b ∈ w, (!endsWord b) = true := fun b hmem => by rw [hw b hmem]; rfl
  rw [word, afterWord, List.takeWhile_append_of_pos hkeep, List.dropWhile_append_of_pos hkeep]
  cases s with
  | nil => simp
  | cons b s => simp [hs b rfl]

theorem word_append {w : Bytes} (hw : ∀ b ∈ w, endsWord b = false) {b : UInt8}
    (hb : endsWord b = true) (s : Bytes) :
    word (w ++ b :: s) = w ∧ afterWord (w ++ b :: s) = b :: s := by
  refine word_append_of_head? hw fun c hc => ?_
  obtain rfl := Option.some.inj hc
  exact hb

/-- Behind the first word of a string with a line feed there still is one. -/
theorem lf_mem_afterWord {s : Bytes} (h : Byte.lf ∈ s) : Byte.lf ∈ afterWord s := by
  rw [← word_append_afterWord s, List.mem_append] at h
  exact h.resolve_left (lf_notMem_of_endsWord fun _ => endsWord_of_mem_word)

/-- What comes after a line feed does not change the first word. -/
theorem word_append_of_lf_mem {s : Bytes} (h : Byte.lf ∈ s) (t : Bytes) :
    word (s ++ t) = word s ∧ afterWord (s ++ t) = afterWord s ++ t := by
  have hne := List.ne_nil_of_mem (lf_mem_afterWord h)
  have hs : s ++ t = word s ++ (afterWord s ++ t) := by
    rw [← List.append_assoc, word_append_afterWord]
  rw [hs]
  refine word_append_of_head? (fun _ => endsWord_of_mem_word) fun b hb => ?_
  rw [List.head?_append_of_ne_nil _ hne] at hb
  exact endsWord_of_head?_afterWord hb

/-! ## The first line -/

/-- The first line is cut off exactly where its line end is, the first line feed. -/
theorem first_eq_ok_iff {s content rest : Bytes} :
    first s = .ok (content, rest) ↔ Byte.lf ∉ content ∧ s = content ++ (Bytes.crlf ++ rest) := by
  constructor
  · intro h
    unfold first at h
    split at h
    · simp at h
    · next line after hline =>
      split at h
      · next r hrev =>
        obtain ⟨rfl, rfl⟩ := by simpa only [Except.ok.injEq, Prod.mk.injEq] using h
        obtain ⟨hisLine, rfl⟩ := Bytes.splitLine?_eq_some_iff.1 hline
        obtain rfl : line = r.reverse ++ Bytes.crlf := by
          rw [← List.reverse_reverse line, hrev]
          simp [Bytes.crlf]
        exact ⟨Bytes.isLine_append_crlf.1 hisLine, List.append_assoc _ _ _⟩
      · simp at h
  · rintro ⟨hlf, rfl⟩
    have hsplit := Bytes.splitLine?_line (.append hlf Bytes.isLine_crlf) rest
    rw [first, ← List.append_assoc, hsplit]
    have hrev : (content ++ Bytes.crlf).reverse = Byte.lf :: Byte.cr :: content.reverse := by
      simp [Bytes.crlf]
    simp only [hrev]
    show Except.ok (content.reverse.reverse, rest) = _
    rw [List.reverse_reverse]

/-- A line either ends in a line end, and is read, or in a line feed that stands alone, and is
not. -/
theorem first_cases {line : Bytes} (h : line.IsLine) :
    (∃ content, line = content ++ Bytes.crlf ∧ first line = .ok (content, []))
      ∨ ¬Bytes.crlf <:+ line ∧ first line = .error .bareLineFeed := by
  by_cases hend : Bytes.crlf <:+ line
  · obtain ⟨content, rfl⟩ := hend
    have hcontent := Bytes.isLine_append_crlf.1 h
    exact .inl ⟨content, rfl, first_eq_ok_iff.2 ⟨hcontent, by rw [List.append_nil]⟩⟩
  · refine .inr ⟨hend, ?_⟩
    have hsplit := Bytes.splitLine?_line h []
    rw [List.append_nil] at hsplit
    rw [first, hsplit]
    simp only
    split
    · next content hreverse =>
      refine absurd ⟨content.reverse, ?_⟩ hend
      rw [← List.reverse_reverse line, hreverse]
      simp [Bytes.crlf]
    · rfl

end MailProtocol.Line
