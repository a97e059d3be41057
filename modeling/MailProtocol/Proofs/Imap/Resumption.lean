import MailProtocol.Proofs.Imap.Incremental
import MailProtocol.Proofs.Reception.Skipping

/-!
# Going on after a literal

A whole line never leaves the scanner in want of one more line (`Scan.run_ne_line`): a line ends the
unit, is refused, or announces a literal. Where the data of a literal have come, the scanner goes on
with what follows as if it had begun there (`Scan.resumes_of_announced`), so this holds of the line
behind them too. So only the data of a literal are followed by a line that the grammar asks for, in
commands and in responses alike (`Command.parse_ne_line`, `Response.parse_ne_line`).
-/

namespace MailProtocol

/-- What follows the front of a line that has no line feed is a line. -/
theorem Bytes.IsLine.of_append {s l : Bytes} (h : (s ++ l).IsLine) (hs : Byte.lf ∉ s) :
    l.IsLine := by
  refine h.of_suffix (List.suffix_append s l) ?_
  rintro rfl
  obtain ⟨content, -, hline⟩ := h
  rw [List.append_nil] at hline
  exact hs (by simp [hline])

namespace Imap

namespace Lexeme

variable {maxLiteral : Nat}

/-- One more line is waited for only where a carriage return ends what is there. -/
theorem eq_of_first_wanting_line {b : UInt8} {s : Bytes}
    (h : first maxLiteral b s = .wanting .line) : b = Byte.cr ∧ s = [] := by
  by_cases hb : IsPlain b
  · rw [first_of_isPlain hb] at h
    split at h
    · split at h
      · cases h
      · split at h
        · cases h
        · cases (of_literal_eq_wanting h).1
    · split at h <;> cases h
  · rcases eq_of_not_isPlain hb with rfl | rfl | rfl | rfl | rfl | rfl
    · cases h
    · unfold first at h
      rw [if_neg (by decide), if_pos rfl] at h
      split at h
      · exact ⟨rfl, rfl⟩
      · cases h
      · cases h
    · cases h
    · cases h
    · cases h
    · rw [first_quote] at h
      split at h <;> cases h

/-- Of the lexemes on a line only the line end holds its line feed, since something must follow the
announcement of a literal. -/
theorem Spells.lf_notMem_of_isLine {lexeme : Lexeme} {text rest : Bytes}
    (h : Spells maxLiteral lexeme text rest.head?) (hline : (text ++ rest).IsLine)
    (hlexeme : lexeme ≠ .lineEnd) : Byte.lf ∉ text := by
  cases h with
  | blank | openList | closeList => decide
  | lineEnd => exact absurd rfl hlexeme
  | quoted h =>
    rw [List.mem_cons, List.mem_append, not_or, not_or]
    exact ⟨by decide, h.lf_notMem, by decide⟩
  | atom h => exact h.lf_notMem
  | literal htext _ _ hthere =>
    obtain ⟨content, -, rfl⟩ := htext.isLine
    rw [List.append_assoc] at hline
    have hnil := hline.eq_nil_of_append
    obtain ⟨rfl, rfl⟩ := List.append_eq_nil_iff.1 hnil
    simp at hthere

/-- What follows a lexeme on a line is the rest of the line. -/
theorem isLine_of_first {b : UInt8} {s rest : Bytes} {lexeme : Lexeme}
    (h : first maxLiteral b s = .found lexeme rest) (hline : Bytes.IsLine (b :: s))
    (hlexeme : lexeme ≠ .lineEnd) : rest.IsLine := by
  obtain ⟨text, hs, hspells⟩ := first_eq_found_iff.1 h
  rw [hs] at hline
  exact hline.of_append (hspells.lf_notMem_of_isLine hline hlexeme)

end Lexeme

namespace Scan

variable {maxLiteral : Nat} {nest : Nest} {waits : Nat}

/-- A whole line does not make the scanner want one more line. -/
theorem run_ne_line {l : Bytes} (hl : l.IsLine) :
    run maxLiteral nest waits l ≠ .ok (.incomplete .line) := by
  fun_induction run maxLiteral nest waits l with
  | case1 => exact absurd rfl hl.ne_nil
  | case2 | case5 | case6 | case8 => simp
  | case3 nest waits b s needs hfirst =>
    intro h
    obtain rfl := by simpa only [Except.ok.injEq, Scan.incomplete.injEq] using h
    obtain ⟨rfl, rfl⟩ := Lexeme.eq_of_first_wanting_line hfirst
    obtain ⟨content, -, hcontent⟩ := hl
    cases content <;> simp [Byte.cr, Byte.lf] at hcontent
  | case4 _ _ _ _ _ hfirst _ ih | case7 _ _ _ _ _ hfirst _ ih | case9 _ _ _ _ _ hfirst _ _ _ ih
  | case10 _ _ _ _ _ _ _ hfirst _ ih =>
    exact ih (Lexeme.isLine_of_first hfirst hl (by simp))

/-- Nor does a line that comes when the data of a literal have come. -/
theorem run_ne_line_of_announced {n : Nat} {s d l : Bytes} {synchronising : Bool}
    (h : run maxLiteral nest waits s = .ok (.incomplete (.literal n synchronising)))
    (hd : d.length = n) (hl : l.IsLine) :
    run maxLiteral nest waits (s ++ (d ++ l)) ≠ .ok (.incomplete .line) := by
  obtain ⟨-, next, more, hrun⟩ := resumes_of_announced h hd
  rw [hrun l (List.append_ne_nil_of_right_ne_nil _ hl.ne_nil)]
  exact run_ne_line hl

end Scan

/-! ## Commands and responses -/

variable {maxLiteral : Nat}

namespace Command

/-- A command that is a line wants no other line after it. -/
theorem parse_ne_line {l : Bytes} (hl : l.IsLine) :
    parse maxLiteral l ≠ .ok (.incomplete .line) := by
  intro hparse
  obtain ⟨tag, uid, verb, text, after, hheading, hfollows, rfl⟩ := heading_of_parse hparse
  cases hfollows with
  | crlf rest =>
    rw [parse_heading_crlf hheading] at hparse
    cases hparse
  | space args =>
    rw [parse_heading_space hheading] at hparse
    have htext : Byte.lf ∉ text ++ [Byte.space] := by
      rw [List.mem_append, not_or]
      exact ⟨hheading.lf_notMem, by decide⟩
    rw [List.append_cons] at hl
    exact Scan.run_ne_line (hl.of_append htext) (of_ofScan_eq_incomplete hparse)

/-- Nor does one that has gone on after a literal. -/
theorem parse_ne_line_of_announced {n : Nat} {q d l : Bytes} {synchronising : Bool}
    (h : parse maxLiteral q = .ok (.incomplete (.literal n synchronising))) (hd : d.length = n)
    (hl : l.IsLine) : parse maxLiteral (q ++ (d ++ l)) ≠ .ok (.incomplete .line) := by
  obtain ⟨tag, uid, verb, text, after, hheading, hfollows, rfl⟩ := heading_of_parse h
  cases hfollows with
  | crlf rest =>
    rw [parse_heading_crlf hheading] at h
    cases h
  | space args =>
    rw [parse_heading_space hheading] at h
    rw [List.append_assoc, List.cons_append, parse_heading_space hheading]
    intro hparse
    exact Scan.run_ne_line_of_announced (of_ofScan_eq_incomplete h) hd hl
      (of_ofScan_eq_incomplete hparse)

end Command

namespace Response

/-- A response that is a line wants no other line after it. -/
theorem parse_ne_line {l : Bytes} (hl : l.IsLine) :
    (parse maxLiteral l).2 ≠ .ok (.incomplete .line) := by
  intro hparse
  obtain ⟨rest, rfl, -, hitems⟩ := data_of_parse hparse
  rw [List.append_cons] at hl
  exact Scan.run_ne_line (hl.of_append (by decide)) hitems

/-- Nor does one that has gone on after a literal. -/
theorem parse_ne_line_of_announced {n : Nat} {q d l : Bytes} {synchronising : Bool}
    (h : (parse maxLiteral q).2 = .ok (.incomplete (.literal n synchronising)))
    (hd : d.length = n) (hl : l.IsLine) :
    (parse maxLiteral (q ++ (d ++ l))).2 ≠ .ok (.incomplete .line) := by
  obtain ⟨rest, rfl, hdata, hitems⟩ := data_of_parse h
  obtain ⟨hlf, -⟩ := Scan.resumes_of_announced hitems hd
  -- the first word ends before the line feed, so what follows cannot make it a condition
  have hmore : Condition.ofWord? (Line.word (rest ++ (d ++ l))) = none := by
    rw [(Line.word_append_of_lf_mem hlf _).1, hdata]
  rw [List.append_assoc, List.cons_append, snd_parse_data hmore]
  intro hparse
  exact Scan.run_ne_line_of_announced hitems hd hl (of_ofScan_eq_incomplete hparse)

end Response

end Imap

end MailProtocol
