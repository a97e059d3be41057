import MailProtocol.Bytes.Split
import Mathlib.Data.List.TakeWhile

/-!
# Lines

A line ends in its only line feed (`Bytes.IsLine`). Cutting off the first line finds one exactly if
the string begins with a line (`splitLine?_eq_some_iff`), and what comes after that line has no say
in it (`splitLine?_append`). How a string ends (`Bytes.Ending`) tells what is trimmed off it.

The last line of a string that ends in a line is that line, with what runs on into it
(`lastLine?_append_line`). The physical lines of a unit are what stands outside of its literals
(`Bytes.physicalLines`).
-/

namespace MailProtocol.Bytes

/-- The string is a line: a line feed ends it, and no other is in it. -/
def IsLine (l : Bytes) : Prop := ∃ content, Byte.lf ∉ content ∧ l = content ++ [Byte.lf]

theorem IsLine.ne_nil {l : Bytes} (h : IsLine l) : l ≠ [] := by
  obtain ⟨content, -, rfl⟩ := h
  simp

/-- What comes before a line joins it, as long as it brings no line feed. -/
theorem IsLine.append {s l : Bytes} (hs : Byte.lf ∉ s) (h : IsLine l) : IsLine (s ++ l) := by
  obtain ⟨content, hcontent, rfl⟩ := h
  refine ⟨s ++ content, ?_, by simp⟩
  rw [List.mem_append]
  exact not_or_intro hs hcontent

theorem IsLine.cons {b : UInt8} {l : Bytes} (hb : b ≠ Byte.lf) (h : IsLine l) : IsLine (b :: l) :=
  IsLine.append (s := [b]) (by simpa using hb.symm) h

/-- The pair that ends a line is one itself. -/
theorem isLine_crlf : IsLine crlf := ⟨[Byte.cr], by decide, rfl⟩

/-- The line feed at the end of a line is the only one, so none is before the carriage return. -/
theorem isLine_append_crlf {content : Bytes} : IsLine (content ++ crlf) ↔ Byte.lf ∉ content := by
  constructor
  · rintro ⟨front, hfront, heq⟩ hmem
    have hcr : content ++ [Byte.cr] = front :=
      (List.append_inj' ((List.append_assoc content [Byte.cr] [Byte.lf]).trans heq) rfl).1
    exact hfront (hcr ▸ List.mem_append_left _ hmem)
  · exact fun h => .append h isLine_crlf

/-- A line has no proper front that ends in a line feed. -/
theorem IsLine.eq_nil_of_append {a b : Bytes} (h : IsLine (a ++ [Byte.lf] ++ b)) : b = [] := by
  obtain ⟨content, hcontent, heq⟩ := h
  rcases List.eq_nil_or_concat b with hb | ⟨b', x, rfl⟩
  · exact hb
  · rw [List.concat_eq_append, ← List.append_assoc] at heq
    have hfront := (List.append_inj' heq rfl).1
    exact absurd (hfront ▸ by simp) hcontent

/-! ## Cutting off the first line -/

/-- A string is cut at the first occurrence of a byte, or has none. -/
theorem takeWhile_ne_append {s : Bytes} {b : UInt8} (h : b ∉ s) {t : Bytes}
    (ht : t = [] ∨ t.head? = some b) :
    (s ++ t).takeWhile (· != b) = s ∧ (s ++ t).dropWhile (· != b) = t := by
  have hkeep : ∀ c ∈ s, (c != b) = true := by
    intro c hc
    simpa using fun he : c = b => h (he ▸ hc)
  rw [List.takeWhile_append_of_pos hkeep, List.dropWhile_append_of_pos hkeep]
  rcases ht with rfl | ht
  · simp
  · obtain ⟨t, rfl⟩ := List.head?_eq_some_iff.1 ht
    simp

theorem splitLine?_line {l : Bytes} (h : IsLine l) (rest : Bytes) :
    splitLine? (l ++ rest) = some (l, rest) := by
  obtain ⟨content, hcontent, rfl⟩ := h
  obtain ⟨htake, hdrop⟩ := takeWhile_ne_append hcontent (t := Byte.lf :: rest) (.inr rfl)
  rw [List.append_assoc, List.singleton_append, splitLine?, hdrop]
  simp only [htake]

theorem isLine_of_splitLine? {s line rest : Bytes} (h : splitLine? s = some (line, rest)) :
    IsLine line := by
  unfold splitLine? at h
  split at h
  · simp at h
  · next b r hd =>
    obtain ⟨rfl, rfl⟩ := by simpa using h
    have hhead : b = Byte.lf := by
      have := List.head?_dropWhile_not (p := (· != Byte.lf)) (l := s)
      rw [hd] at this
      simpa using this
    refine ⟨s.takeWhile (· != Byte.lf), fun hmem => ?_, by rw [hhead]⟩
    have := List.mem_takeWhile_imp hmem
    simp at this

/-- A first line is found exactly if the string begins with a line. -/
theorem splitLine?_eq_some_iff {s line rest : Bytes} :
    splitLine? s = some (line, rest) ↔ IsLine line ∧ s = line ++ rest := by
  constructor
  · intro h
    exact ⟨isLine_of_splitLine? h, (append_of_splitLine? h).symm⟩
  · rintro ⟨hline, rfl⟩
    exact splitLine?_line hline rest

instance (l : Bytes) : Decidable (IsLine l) :=
  decidable_of_iff (splitLine? l = some (l, [])) (by simp [splitLine?_eq_some_iff])

/-- No first line is found exactly if there is no line feed. -/
theorem splitLine?_eq_none_iff {s : Bytes} : splitLine? s = none ↔ Byte.lf ∉ s := by
  have hdrop : s.dropWhile (· != Byte.lf) = [] ↔ Byte.lf ∉ s := by
    rw [List.dropWhile_eq_nil_iff]
    constructor
    · intro h hmem
      simpa using h _ hmem
    · rintro h b hb
      simpa using fun he : b = Byte.lf => h (he ▸ hb)
  rw [← hdrop, splitLine?]
  split <;> simp_all

/-- Bytes that come later are not part of the first line. -/
theorem splitLine?_append {s line rest : Bytes} (h : splitLine? s = some (line, rest))
    (more : Bytes) : splitLine? (s ++ more) = some (line, rest ++ more) := by
  obtain ⟨hline, rfl⟩ := splitLine?_eq_some_iff.1 h
  rw [List.append_assoc]
  exact splitLine?_line hline _

/-- A first line that is found only with later bytes goes on beyond the earlier ones. -/
theorem length_lt_of_splitLine?_append {s more line rest : Bytes} (hs : splitLine? s = none)
    (h : splitLine? (s ++ more) = some (line, rest)) : s.length < line.length := by
  obtain ⟨hline, heq⟩ := splitLine?_eq_some_iff.1 h
  -- otherwise the line would be a front of the earlier bytes, and have been found in them
  by_contra hlt
  obtain ⟨t, rfl⟩ := List.prefix_of_prefix_length_le ⟨rest, heq.symm⟩ ⟨more, rfl⟩ (by omega)
  rw [splitLine?_line hline] at hs
  simp at hs

/-- A string is in one way only a row of lines and a rest without a line feed. -/
theorem eq_of_flatten_append_eq {ls ls' : List Bytes} {t t' : Bytes} (hls : ∀ l ∈ ls, l.IsLine)
    (hls' : ∀ l ∈ ls', l.IsLine) (ht : Byte.lf ∉ t) (ht' : Byte.lf ∉ t')
    (h : ls.flatten ++ t = ls'.flatten ++ t') : ls = ls' ∧ t = t' := by
  induction ls generalizing ls' with
  | nil =>
    cases ls' with
    | nil => exact ⟨rfl, h⟩
    | cons l' ls' =>
      rw [List.forall_mem_cons] at hls'
      rw [List.flatten_nil, List.nil_append] at h
      have hnone := splitLine?_eq_none_iff.2 ht
      rw [h, List.flatten_cons, List.append_assoc, splitLine?_line hls'.1] at hnone
      cases hnone
  | cons l ls ih =>
    rw [List.forall_mem_cons] at hls
    rw [List.flatten_cons, List.append_assoc] at h
    have hfirst := splitLine?_line hls.1 (ls.flatten ++ t)
    cases ls' with
    | nil =>
      rw [h, List.flatten_nil, List.nil_append, splitLine?_eq_none_iff.2 ht'] at hfirst
      cases hfirst
    | cons l' ls' =>
      rw [List.forall_mem_cons] at hls'
      rw [h, List.flatten_cons, List.append_assoc, splitLine?_line hls'.1] at hfirst
      obtain ⟨rfl, hrest⟩ := Prod.mk.inj (Option.some.inj hfirst)
      obtain ⟨rfl, rfl⟩ := ih hls.2 hls'.2 hrest.symm
      exact ⟨rfl, rfl⟩

/-- A string of lines that begins with lines goes on with lines. -/
theorem exists_of_flatten_append_eq {ls ls' : List Bytes} {t : Bytes} (hls : ∀ l ∈ ls, l.IsLine)
    (hls' : ∀ l ∈ ls', l.IsLine) (h : ls.flatten ++ t = ls'.flatten) :
    ∃ more, ls' = ls ++ more ∧ t = more.flatten := by
  induction ls generalizing ls' with
  | nil => exact ⟨ls', rfl, h⟩
  | cons l ls ih =>
    rw [List.forall_mem_cons] at hls
    rw [List.flatten_cons, List.append_assoc] at h
    have hfirst := splitLine?_line hls.1 (ls.flatten ++ t)
    cases ls' with
    | nil =>
      rw [h] at hfirst
      cases hfirst
    | cons l' ls' =>
      rw [List.forall_mem_cons] at hls'
      rw [h, List.flatten_cons, splitLine?_line hls'.1] at hfirst
      obtain ⟨rfl, hrest⟩ := Prod.mk.inj (Option.some.inj hfirst)
      obtain ⟨more, rfl, ht⟩ := ih hls.2 hls'.2 hrest.symm
      exact ⟨more, rfl, ht⟩

/-! ## Line ends -/

/-- How a string ends: in a line end of two bytes, in a bare line feed, or not with a line. -/
inductive Ending : Bytes → Prop
  | crlf (s : Bytes) : Ending (s ++ crlf)
  | lf {s : Bytes} (h : s.getLast? ≠ some Byte.cr) : Ending (s ++ [Byte.lf])
  | none {s : Bytes} (h : s.getLast? ≠ some Byte.lf) : Ending s

theorem ending (s : Bytes) : Ending s := by
  by_cases hlf : s.getLast? = some Byte.lf
  · obtain ⟨s, rfl⟩ := List.getLast?_eq_some_iff.1 hlf
    by_cases hcr : s.getLast? = some Byte.cr
    · obtain ⟨s, rfl⟩ := List.getLast?_eq_some_iff.1 hcr
      rw [List.append_assoc]
      exact .crlf s
    · exact .lf hcr
  · exact .none hlf

theorem trimLineEnding_crlf (s : Bytes) : trimLineEnding (s ++ crlf) = s := by
  have hreverse : (s ++ crlf).reverse = Byte.lf :: Byte.cr :: s.reverse := by simp [crlf]
  rw [trimLineEnding, hreverse]
  exact List.reverse_reverse s

theorem trimLineEnding_lf {s : Bytes} (h : s.getLast? ≠ some Byte.cr) :
    trimLineEnding (s ++ [Byte.lf]) = s := by
  have hreverse : (s ++ [Byte.lf]).reverse = Byte.lf :: s.reverse := by simp
  rw [trimLineEnding, hreverse]
  split
  · next r hr =>
    rw [List.getLast?_eq_head?_reverse, (List.cons.inj hr).2] at h
    exact absurd rfl h
  · next r _ hr =>
    rw [← (List.cons.inj hr).2, List.reverse_reverse]
  · next hne => exact absurd rfl (hne _)

theorem reverse_ne {s : Bytes} (h : s.getLast? ≠ some Byte.lf) (r : Bytes) :
    s.reverse ≠ Byte.lf :: r := by
  intro hr
  rw [List.getLast?_eq_head?_reverse, hr] at h
  exact h rfl

/-- Without a line end nothing is taken off. -/
theorem trimLineEnding_of_getLast? {s : Bytes} (h : s.getLast? ≠ some Byte.lf) :
    s.trimLineEnding = s := by
  rw [trimLineEnding]
  split
  · next r hr => exact absurd hr (reverse_ne h _)
  · next r _ hr => exact absurd hr (reverse_ne h _)
  · rfl

/-- The last line of a string that ends in a line feed is trimmed like a line. -/
theorem lastLine?_lf (s : Bytes) : lastLine? (s ++ [Byte.lf])
    = some (trimLineEnding ((s.reverse.takeWhile (· != Byte.lf)).reverse ++ [Byte.lf])) := by
  have hreverse : (s ++ [Byte.lf]).reverse = Byte.lf :: s.reverse := by simp
  rw [lastLine?, hreverse]
  split
  · next r hr =>
    have hcr : (s.reverse.takeWhile (· != Byte.lf)).reverse ++ [Byte.lf]
        = (r.takeWhile (· != Byte.lf)).reverse ++ crlf := by
      rw [(List.cons.inj hr).2, List.takeWhile_cons_of_pos (by decide)]
      simp [crlf]
    rw [hcr, trimLineEnding_crlf]
  · next r hne hr =>
    obtain rfl := (List.cons.inj hr).2
    rw [trimLineEnding_lf]
    rw [List.getLast?_reverse]
    rcases hs : s.reverse with _ | ⟨b, z⟩
    · simp
    · by_cases hb : b = Byte.lf
      · rw [List.takeWhile_cons_of_neg (by simpa using hb)]
        simp
      · rw [List.takeWhile_cons_of_pos (by simpa using hb)]
        rintro hcr
        obtain rfl := Option.some.inj hcr
        exact hne z hs
  · next hne => exact absurd rfl (hne _)

/-- The last line of a string that ends in a line is that line, with what runs on into it. -/
theorem lastLine?_append_line {line : Bytes} (h : line.IsLine) (s : Bytes) :
    ∃ front, front <:+ s ∧ lastLine? (s ++ line) = some (trimLineEnding (front ++ line)) := by
  obtain ⟨content, hcontent, rfl⟩ := h
  have hkeep : ∀ b ∈ content.reverse, (b != Byte.lf) = true := by
    intro b hb
    rw [List.mem_reverse] at hb
    simpa using fun he : b = Byte.lf => hcontent (he ▸ hb)
  refine ⟨(s.reverse.takeWhile (· != Byte.lf)).reverse, ?_, ?_⟩
  · rw [← List.reverse_prefix, List.reverse_reverse]
    exact List.takeWhile_prefix _
  · rw [← List.append_assoc, lastLine?_lf, List.reverse_append, List.takeWhile_append_of_pos hkeep,
      List.reverse_append, List.reverse_reverse, List.append_assoc]

/-- Of what stands before the last line only what joins that line is found with it. -/
theorem lastLine?_append {content : Bytes} (h : Byte.lf ∉ content) (s : Bytes) :
    ∃ front, lastLine? (s ++ (content ++ crlf)) = some (front ++ content) := by
  obtain ⟨front, -, hlast⟩ := lastLine?_append_line (.append h isLine_crlf) s
  rw [← List.append_assoc front, trimLineEnding_crlf] at hlast
  exact ⟨front, hlast⟩

/-- What comes before a line that holds more than its line end is not trimmed. -/
theorem trimLineEnding_append {line : Bytes} (hline : line.IsLine) (h : trimLineEnding line ≠ [])
    (s : Bytes) : trimLineEnding (s ++ line) = s ++ trimLineEnding line := by
  obtain ⟨content, -, rfl⟩ := hline
  rcases List.eq_nil_or_concat content with rfl | ⟨content, b, rfl⟩
  · exact absurd rfl h
  · rw [List.concat_eq_append] at h ⊢
    by_cases hb : b = Byte.cr
    · have hcrlf : content ++ [b] ++ [Byte.lf] = content ++ crlf := by simp [hb, crlf]
      rw [hcrlf, trimLineEnding_crlf, ← List.append_assoc, trimLineEnding_crlf]
    · have hlast (t : Bytes) : (t ++ (content ++ [b])).getLast? ≠ some Byte.cr := by
        rw [← List.append_assoc, List.getLast?_concat]
        simpa using hb
      have hline := trimLineEnding_lf (hlast [])
      rw [List.nil_append] at hline
      rw [hline, ← List.append_assoc, trimLineEnding_lf (hlast s)]

/-! ## The lines of a unit -/

/-- The lines of a string. Bytes without a line feed at the end count as one more line. -/
def lines (s : Bytes) : List Bytes :=
  match _h : s.splitLine? with
  | some (line, rest) => line :: lines rest
  | none => if s.isEmpty then [] else [s]
termination_by s.length
decreasing_by exact length_lt_of_splitLine? _h

/-- The lines of a string that holds `literals`, each right after the line that announces it: what
stands outside of the literals. -/
def physicalLines : List Bytes → Bytes → List Bytes
  | [], s => lines s
  | literal :: literals, s =>
    match s.splitLine? with
    | some (line, rest) => line :: physicalLines literals (rest.drop literal.length)
    | none => [s]

/-- Induction over a string line by line, from what stands behind the last line feed. -/
theorem lineInduction {P : Bytes → Prop} (rest : ∀ t, Byte.lf ∉ t → P t)
    (line : ∀ l s, IsLine l → P s → P (l ++ s)) (s : Bytes) : P s := by
  fun_induction lines s with
  | case1 s l r hsplit ih =>
    obtain ⟨hl, rfl⟩ := splitLine?_eq_some_iff.1 hsplit
    exact line l r hl ih
  | case2 s hsplit | case3 s hsplit => exact rest s (splitLine?_eq_none_iff.1 hsplit)

theorem lines_of_isLine {l : Bytes} (h : IsLine l) : lines l = [l] := by
  have hsplit : splitLine? l = some (l, []) := splitLine?_eq_some_iff.2 ⟨h, by simp⟩
  have hnil : lines [] = [] := by
    rw [lines]
    rfl
  rw [lines]
  split
  · next hl =>
    rw [hsplit, Option.some.injEq, Prod.mk.injEq] at hl
    rw [← hl.1, ← hl.2, hnil]
  · next hl => simp [hsplit] at hl

theorem physicalLines_cons {l : Bytes} (h : IsLine l) (literal : Bytes) (literals : List Bytes)
    (rest : Bytes) : physicalLines (literal :: literals) (l ++ literal ++ rest)
      = l :: physicalLines literals rest := by
  rw [physicalLines, List.append_assoc, splitLine?_line h]
  simp

end MailProtocol.Bytes
