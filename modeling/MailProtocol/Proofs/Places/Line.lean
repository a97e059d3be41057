import MailProtocol.Proofs.Bytes.Words
import MailProtocol.Proofs.Places.Basic

/-!
# Words and lines by places

A word is known by the place where it ends (`Line.wordEnd`), and the first line by the place of its
carriage return and the place behind it (`Line.endAt`). Both are found in the whole fragment, each
by a search of its own: that the line does not end inside of the words in front of it is a fact
about the bytes that end words (`Line.first_append`).

`Between s ix stop w` says that `w` is what stands between two places.
-/

namespace MailProtocol

/-- Between the places `ix` and `stop` of `s` stands `w`. -/
def Between (s : Bytes) (ix stop : Nat) (w : Bytes) : Prop :=
  ∃ t, At s ix (w ++ t) ∧ stop = ix + w.length

namespace Between

variable {s w : Bytes} {ix stop : Nat} {b : UInt8}

theorem part_eq (h : Between s ix stop w) : s.part ix stop = .ok w := by
  obtain ⟨t, hat, rfl⟩ := h
  exact hat.part_eq

theorem length_eq (h : Between s ix stop w) : stop = ix + w.length := h.choose_spec.2

theorem stop_le (h : Between s ix stop w) : stop ≤ s.length := by
  obtain ⟨t, hat, rfl⟩ := h
  exact hat.append.le

theorem byteAt_eq (h : Between s ix stop (b :: w)) : s.byteAt ix = .ok b := by
  obtain ⟨t, hat, -⟩ := h
  exact At.byteAt_eq (t := w ++ t) hat

/-- What is left behind the front of a part stands behind it. -/
theorem append {v : Bytes} (h : Between s ix stop (v ++ w)) :
    Between s (ix + v.length) stop w := by
  obtain ⟨t, hat, rfl⟩ := h
  rw [List.append_assoc] at hat
  exact ⟨t, hat.append, by rw [List.length_append]; omega⟩

theorem tail (h : Between s ix stop (b :: w)) : Between s (ix + 1) stop w := append (v := [b]) h

/-- A part ends where its front does, if that is cut off. -/
theorem front {v : Bytes} (h : Between s ix stop (v ++ w)) :
    Between s ix (ix + v.length) v := by
  obtain ⟨t, hat, -⟩ := h
  rw [List.append_assoc] at hat
  exact ⟨w ++ t, hat, rfl⟩

/-- Nothing stands between two places only if they are one. -/
theorem lt_iff (h : Between s ix stop w) : ix < stop ↔ w ≠ [] := by
  rw [h.length_eq, ← List.length_pos_iff]
  omega

end Between

namespace Line

/-! ## Words -/

/-- The place where the word that begins at `start` ends. -/
def wordEnd (s : Bytes) (start : Nat) : Nat := (s.find? endsWord start).getD s.length

section
variable {s t : Bytes} {ix : Nat}

theorem wordEnd_eq (h : At s ix t) : wordEnd s ix = ix + (word t).length := by
  unfold wordEnd
  rcases Bytes.exists_cut endsWord t with ht | ⟨w, b, u, rfl, hw, hb⟩
  · have hword := (word_append_of_head? ht (s := []) (by simp)).1
    rw [List.append_nil] at hword
    rw [h.find?_eq_none ht, hword]
    exact h.length_eq.symm
  · rw [h.find?_eq_some hw hb, (word_append hw hb u).1]
    rfl

/-- Behind a word stands what follows it. -/
theorem at_wordEnd (h : At s ix t) : At s (wordEnd s ix) (afterWord t) := by
  rw [wordEnd_eq h]
  apply At.append
  rwa [word_append_afterWord]

/-- A word stands between its places. -/
theorem between_wordEnd (h : At s ix t) : Between s ix (wordEnd s ix) (word t) := by
  refine ⟨afterWord t, ?_, wordEnd_eq h⟩
  rwa [word_append_afterWord]

theorem part_wordEnd (h : At s ix t) : s.part ix (wordEnd s ix) = .ok (word t) :=
  (between_wordEnd h).part_eq

/-- A word without a byte ends where it begins. -/
theorem wordEnd_eq_iff (h : At s ix t) : wordEnd s ix = ix ↔ (word t).isEmpty := by
  rw [wordEnd_eq h, List.isEmpty_iff_length_eq_zero]
  omega

end

/-! ## The first line -/

/-- The place of the carriage return that ends the first line, and the place behind its line
feed. -/
def endAt (s : Bytes) : Except Trap (Except Fault (Nat × Nat)) :=
  match s.indexOf? Byte.lf with
  | none => .ok (.error .missingLineEnding)
  | some lf =>
    if 0 < lf then do
      let cr ← Trap.sub lf 1
      if (← s.byteAt cr) = Byte.cr then return .ok (cr, lf + 1) else return .error .bareLineFeed
    else .ok (.error .bareLineFeed)

/-- The content of a line and what follows it, told by places. -/
def placed (s : Bytes) (r : Bytes × Bytes) : Nat × Nat := (r.1.length, s.length - r.2.length)

/-- What the first line is, by where its line feed stands. -/
inductive First : Bytes → Except Fault (Bytes × Bytes) → Prop
  | missing {s : Bytes} (h : Byte.lf ∉ s) : First s (.error .missingLineEnding)
  | bare {content : Bytes} (h : Byte.lf ∉ content) (hcr : content.getLast? ≠ some Byte.cr)
    (rest : Bytes) : First (content ++ Byte.lf :: rest) (.error .bareLineFeed)
  | line {content : Bytes} (h : Byte.lf ∉ content) (rest : Bytes) :
    First (content ++ (Bytes.crlf ++ rest)) (.ok (content, rest))

theorem First.eq {s : Bytes} {result : Except Fault (Bytes × Bytes)} (h : First s result) :
    first s = result := by
  cases h with
  | missing h => rw [first, Bytes.splitLine?_eq_none_iff.2 h]
  | @bare content h hcr rest =>
    have hsplit := Bytes.splitLine?_line ⟨content, h, rfl⟩ rest
    rw [List.append_assoc, List.singleton_append] at hsplit
    rw [first, hsplit]
    have hreverse : (content ++ [Byte.lf]).reverse = Byte.lf :: content.reverse := by simp
    simp only [hreverse]
    split
    · next before heq =>
      rw [← List.head?_reverse, (List.cons.inj heq).2] at hcr
      exact absurd rfl hcr
    · rfl
  | line h rest => exact first_eq_ok_iff.2 ⟨h, rfl⟩

theorem first_first (s : Bytes) : First s (first s) := by
  suffices h : ∃ result, First s result by
    obtain ⟨result, h⟩ := h
    rw [h.eq]
    exact h
  rcases Bytes.exists_cut (· == Byte.lf) s with hs | ⟨w, b, rest, rfl, hw, hb⟩
  · exact ⟨_, .missing fun hmem => by simpa using hs _ hmem⟩
  · have hw : Byte.lf ∉ w := fun hmem => by simpa using hw _ hmem
    obtain rfl : b = Byte.lf := by simpa using hb
    by_cases hcr : w.getLast? = some Byte.cr
    · obtain ⟨content, rfl⟩ := List.getLast?_eq_some_iff.1 hcr
      rw [List.append_assoc]
      exact ⟨_, .line (fun hmem => hw (List.mem_append_left _ hmem)) rest⟩
    · exact ⟨_, .bare hw hcr rest⟩

/-- In front of a line there may stand what has no line feed, unless it ends in a carriage return
that a bare line feed takes for its own. -/
theorem first_append {front : Bytes} (hlf : Byte.lf ∉ front)
    (hcr : front.getLast? ≠ some Byte.cr) (s : Bytes) :
    first (front ++ s) = (first s).map fun r => (front ++ r.1, r.2) := by
  generalize hresult : first s = result
  have hfirst := first_first s
  rw [hresult] at hfirst
  have hnot {content : Bytes} (h : Byte.lf ∉ content) : Byte.lf ∉ front ++ content := by
    rw [List.mem_append, not_or]
    exact ⟨hlf, h⟩
  cases hfirst with
  | missing h => exact (First.missing (hnot h)).eq
  | @bare content h hcr' rest =>
    rw [← List.append_assoc]
    refine (First.bare (hnot h) ?_ rest).eq
    -- what stands before the line feed is the end of the content, or that of the front
    cases content with
    | nil => rwa [List.append_nil]
    | cons b content => rwa [List.getLast?_append_of_ne_nil _ (by simp)]
  | line h rest =>
    rw [← List.append_assoc]
    exact (First.line (hnot h) rest).eq

/-- The byte before the first line feed decides. -/
theorem endAt_concat {v : Bytes} {c : UInt8} (h : Byte.lf ∉ v ++ [c]) (rest : Bytes) :
    endAt (v ++ [c] ++ Byte.lf :: rest)
      = .ok (if c = Byte.cr then .ok (v.length, v.length + 2) else .error .bareLineFeed) := by
  have hat : At (v ++ [c] ++ Byte.lf :: rest) v.length (c :: Byte.lf :: rest) := by
    rw [List.append_assoc]
    exact .of_append v _
  have hpos : 0 < (v ++ [c]).length := by simp
  rw [endAt, Bytes.indexOf?_append h]
  show (if 0 < (v ++ [c]).length then _ else _) = _
  rw [if_pos hpos, Trap.sub_eq_ok hpos, List.length_append, List.length_singleton,
    Nat.add_sub_cancel]
  show (Bytes.byteAt _ v.length >>= _) = _
  rw [hat.byteAt_eq]
  show (if c = Byte.cr then _ else _) = _
  split <;> rfl

/-- Where the byte before the first line feed is a carriage return, the first line ends. -/
theorem endAt_eq (s : Bytes) : endAt s = .ok ((first s).map (placed s)) := by
  generalize hresult : first s = result
  have hfirst := first_first s
  rw [hresult] at hfirst
  cases hfirst with
  | missing h =>
    rw [endAt, Bytes.indexOf?_eq_none h]
    rfl
  | @bare content h hcr rest =>
    rcases List.eq_nil_or_concat content with rfl | ⟨v, c, rfl⟩
    · rfl
    · rw [List.concat_eq_append] at h hcr ⊢
      rw [endAt_concat h, if_neg (by simpa using hcr)]
      rfl
  | @line content h rest =>
    have hlf : Byte.lf ∉ content ++ [Byte.cr] := by
      rw [List.mem_append, not_or]
      exact ⟨h, by decide⟩
    have hs : content ++ (Bytes.crlf ++ rest) = content ++ [Byte.cr] ++ Byte.lf :: rest := by
      simp [Bytes.crlf]
    have hat : At (content ++ (Bytes.crlf ++ rest)) (content.length + 2) rest :=
      (At.of_append content (Bytes.crlf ++ rest)).append
    rw [hs, endAt_concat hlf, if_pos rfl, ← hs]
    show _ = Except.ok (Except.ok (content.length, _))
    rw [hat.place_eq]

/-- The line end is found from the front of the fragment as it is found behind its first words. -/
theorem endAt_append {front : Bytes} (hlf : Byte.lf ∉ front)
    (hcr : front.getLast? ≠ some Byte.cr) (s : Bytes) :
    endAt (front ++ s) = .ok ((first s).map fun r =>
      (front.length + r.1.length, (front ++ s).length - r.2.length)) := by
  rw [endAt_eq, first_append hlf hcr]
  rcases first s with fault | ⟨content, rest⟩
  · rfl
  · show Except.ok (Except.ok ((front ++ content).length, _)) = _
    rw [List.length_append]
    rfl

end Line

/-! ## The lines of a buffer -/

namespace Bytes

/-- The last place of a byte. -/
def lastIndexOf? (s : Bytes) (b : UInt8) : Option Nat :=
  (Bytes.indexOf? s.reverse b).map (s.length - 1 - ·)

/-- Take off an end. -/
def stripSuffix? (s suffix : Bytes) : Option Bytes :=
  if s.endsWith suffix then some (s.take (s.length - suffix.length)) else none

/-- Take off one line end, CRLF or a bare line feed. -/
def trimAt (s : Bytes) : Except Trap Bytes :=
  if s.endsWith crlf then do s.part 0 (← Trap.sub s.length 2)
  else if s.endsWith [Byte.lf] then do s.part 0 (← Trap.sub s.length 1)
  else .ok s

/-- The last line of a string that ends in a line end, without that line end. -/
def lastLineAt (s : Bytes) : Except Trap (Option Bytes) :=
  match s.stripSuffix? crlf <|> s.stripSuffix? [Byte.lf] with
  | none => .ok none
  | some content => do
    let start := match content.lastIndexOf? Byte.lf with
      | none => 0
      | some place => place + 1
    return some (← content.partFrom start)

/-- The first line of the buffer, if a whole one is there, and what follows it. -/
def takeLine (buffer : Bytes) : Except Trap (Option (Bytes × Bytes)) :=
  match buffer.indexOf? Byte.lf with
  | none => .ok none
  | some lf => do return some (← buffer.part 0 (lf + 1), ← buffer.partFrom (lf + 1))

/-- Exactly `n` bytes of the buffer, if so many are there, and what follows them. -/
def takeExact (buffer : Bytes) (n : Nat) : Except Trap (Option (Bytes × Bytes)) :=
  if n ≤ buffer.length then do return some (← buffer.part 0 n, ← buffer.partFrom n) else .ok none

theorem partFrom_le {s : Bytes} {n : Nat} (h : n ≤ s.length) : s.partFrom n = .ok (s.drop n) :=
  At.partFrom_eq ⟨h, rfl⟩

theorem part_le {s : Bytes} {n : Nat} (h : n ≤ s.length) : s.part 0 n = .ok (s.take n) := by
  have hpart := At.part_append (s.take n) (s.drop n)
  rwa [List.take_append_drop, List.length_take_of_le h] at hpart

theorem takeLine_eq (buffer : Bytes) : takeLine buffer = .ok buffer.splitLine? := by
  have hcut := cut Byte.lf buffer
  unfold takeLine splitLine?
  generalize buffer.takeWhile (· != Byte.lf) = line, buffer.dropWhile (· != Byte.lf) = after,
    buffer.indexOf? Byte.lf = found at hcut
  cases hcut with
  | whole h => rfl
  | @first line h rest =>
    have hline : line ++ Byte.lf :: rest = (line ++ [Byte.lf]) ++ rest := by simp
    have hlength : line.length + 1 = (line ++ [Byte.lf]).length := by simp
    show (Bytes.part _ 0 (line.length + 1) >>= _) = _
    rw [hline, hlength, At.part_append]
    show (Bytes.partFrom _ (line ++ [Byte.lf]).length >>= _) = _
    rw [(At.of_append (line ++ [Byte.lf]) rest).partFrom_eq]
    rfl

theorem takeExact_eq (buffer : Bytes) (n : Nat) : takeExact buffer n
    = .ok (if n ≤ buffer.length then some (buffer.take n, buffer.drop n) else none) := by
  unfold takeExact
  by_cases h : n ≤ buffer.length
  · rw [if_pos h, if_pos h, part_le h, partFrom_le h]
    rfl
  · rw [if_neg h, if_neg h]

theorem endsWith_iff {s t : Bytes} : s.endsWith t = true ↔ ∃ w, s = w ++ t := by
  rw [endsWith, List.isSuffixOf_iff_suffix]
  exact ⟨fun ⟨w, hw⟩ => ⟨w, hw.symm⟩, fun ⟨w, hw⟩ => ⟨w, hw.symm⟩⟩

theorem endsWith_append (s t : Bytes) : (s ++ t).endsWith t = true := endsWith_iff.2 ⟨s, rfl⟩

theorem not_endsWith_crlf {s : Bytes} (h : s.getLast? ≠ some Byte.cr) :
    ¬(s ++ [Byte.lf]).endsWith crlf = true := by
  rw [endsWith_iff]
  rintro ⟨w, hw⟩
  have hcr : s ++ [Byte.lf] = (w ++ [Byte.cr]) ++ [Byte.lf] := by
    rw [hw, List.append_assoc]
    rfl
  exact h (by rw [List.append_cancel_right hcr, List.getLast?_concat])

theorem not_endsWith_of_getLast? {s : Bytes} (h : s.getLast? ≠ some Byte.lf) :
    ¬s.endsWith crlf = true ∧ ¬s.endsWith [Byte.lf] = true := by
  rw [endsWith_iff, endsWith_iff]
  constructor
  · rintro ⟨w, rfl⟩
    exact h (by simp [crlf])
  · rintro ⟨w, rfl⟩
    exact h (by simp)

theorem trimAt_eq (s : Bytes) : trimAt s = .ok s.trimLineEnding := by
  rcases ending s with ⟨s⟩ | @⟨s, h⟩ | h
  · have hlength : (s ++ crlf).length = s.length + 2 := List.length_append
    rw [trimAt, if_pos (endsWith_append s crlf), trimLineEnding_crlf, hlength,
      Trap.sub_eq_ok (Nat.le_add_left 2 s.length), Nat.add_sub_cancel]
    exact At.part_append s crlf
  · have hlength : (s ++ [Byte.lf]).length = s.length + 1 := List.length_append
    rw [trimAt, if_neg (not_endsWith_crlf h), if_pos (endsWith_append s [Byte.lf]),
      trimLineEnding_lf h, hlength, Trap.sub_eq_ok (Nat.le_add_left 1 s.length),
      Nat.add_sub_cancel]
    exact At.part_append s [Byte.lf]
  · obtain ⟨hcrlf, hlf⟩ := not_endsWith_of_getLast? h
    rw [trimAt, if_neg hcrlf, if_neg hlf, trimLineEnding_of_getLast? h]

/-- The last line begins behind the last line feed. -/
theorem partFrom_lastLine (content : Bytes) :
    content.partFrom (match content.lastIndexOf? Byte.lf with
      | none => 0
      | some place => place + 1) = .ok (content.reverse.takeWhile (· != Byte.lf)).reverse := by
  -- the last line feed is the first one from behind
  obtain ⟨reversed, rfl⟩ : ∃ r : Bytes, content = r.reverse :=
    ⟨content.reverse, (List.reverse_reverse content).symm⟩
  have hcut := cut Byte.lf reversed
  unfold lastIndexOf?
  rw [List.reverse_reverse]
  generalize reversed.takeWhile (· != Byte.lf) = line,
    reversed.dropWhile (· != Byte.lf) = after, reversed.indexOf? Byte.lf = found at hcut
  cases hcut with
  | whole h => exact (At.start reversed.reverse).partFrom_eq
  | @first line h t =>
    have hlast : (line ++ Byte.lf :: t).reverse = t.reverse ++ Byte.lf :: line.reverse := by simp
    have hplace : (line ++ Byte.lf :: t).reverse.length - 1 - line.length = t.reverse.length := by
      rw [hlast, List.length_append, List.length_cons, List.length_reverse, List.length_reverse]
      omega
    show Bytes.partFrom _ ((line ++ Byte.lf :: t).reverse.length - 1 - line.length + 1) = _
    rw [hplace, hlast]
    exact (At.of_append t.reverse (Byte.lf :: line.reverse)).tail.partFrom_eq

theorem stripSuffix?_append (s t : Bytes) : (s ++ t).stripSuffix? t = some s := by
  rw [stripSuffix?, if_pos (endsWith_append s t), List.length_append, Nat.add_sub_cancel,
    List.take_left]

theorem lastLineAt_eq (s : Bytes) : lastLineAt s = .ok s.lastLine? := by
  have hline (content : Bytes) : (content.partFrom (match content.lastIndexOf? Byte.lf with
        | none => 0
        | some place => place + 1) >>= fun line => Except.ok (some line))
      = .ok (some (content.reverse.takeWhile (· != Byte.lf)).reverse) := by
    rw [partFrom_lastLine]
    rfl
  unfold lastLineAt
  rcases ending s with ⟨s⟩ | @⟨s, h⟩ | h
  · have hreverse : (s ++ crlf).reverse = Byte.lf :: Byte.cr :: s.reverse := by simp [crlf]
    rw [stripSuffix?_append, lastLine?, hreverse]
    exact hline s
  · have hreverse : (s ++ [Byte.lf]).reverse = Byte.lf :: s.reverse := by simp
    have hcrlf : (s ++ [Byte.lf]).stripSuffix? crlf = none := if_neg (not_endsWith_crlf h)
    have hlast : (s ++ [Byte.lf]).lastLine?
        = some (s.reverse.takeWhile (· != Byte.lf)).reverse := by
      rw [lastLine?, hreverse]
      split
      · next r hr =>
        rw [List.getLast?_eq_head?_reverse, (List.cons.inj hr).2] at h
        exact absurd rfl h
      · next r _ hr => rw [← (List.cons.inj hr).2]
      · next hne => exact absurd rfl (hne _)
    rw [hcrlf, stripSuffix?_append, hlast]
    exact hline s
  · obtain ⟨hcrlf, hlf⟩ := not_endsWith_of_getLast? h
    have hlast : s.lastLine? = none := by
      rw [lastLine?]
      split
      · next r hr => exact absurd hr (reverse_ne h _)
      · next r _ hr => exact absurd hr (reverse_ne h _)
      · rfl
    rw [stripSuffix?, stripSuffix?, if_neg hcrlf, if_neg hlf, hlast]
    rfl

end Bytes

end MailProtocol
