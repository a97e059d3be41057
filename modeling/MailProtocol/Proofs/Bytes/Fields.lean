import MailProtocol.Proofs.Bytes.Lines
import Mathlib.Data.List.Basic

/-!
# What a line is made of

A line is its content, with or without a line end (`Bytes.Trimmed`), and the content is words with
spaces around them, of which only as many are needed as keep the words apart (`Bytes.Splits`). Each
is read off in just one way, the one that is computed (`Bytes.trimmed_iff`, `Bytes.splits_iff`).
-/

namespace MailProtocol.Bytes

variable {line content s : Bytes} {ws ws' : List Bytes} {delimiter : UInt8}

/-! ## Fields -/

theorem fields_of_notMem (h : delimiter ∉ s) :
    s.fields delimiter = if s.isEmpty then [] else [s] := by
  rw [fields, List.splitOn_eq_singleton h, List.filter_singleton]
  cases s.isEmpty <;> rfl

theorem fields_append {w : Bytes} (h : delimiter ∉ w) (t : Bytes) :
    (w ++ delimiter :: t).fields delimiter
      = if w.isEmpty then t.fields delimiter else w :: t.fields delimiter := by
  rw [fields, List.splitOn_append_cons_self_of_not_mem h, List.filter_cons]
  cases w.isEmpty <;> rfl

/-- The fields `ws` stand in a string in their order, with delimiters between them, any number of
which may be at the ends, too. -/
inductive Splits (delimiter : UInt8) : Bytes → List Bytes → Prop
  | nil : Splits delimiter [] []
  | skip {s : Bytes} {ws : List Bytes} (h : Splits delimiter s ws) :
      Splits delimiter (delimiter :: s) ws
  | last {w : Bytes} (hne : w ≠ []) (hw : delimiter ∉ w) : Splits delimiter w [w]
  | field {w s : Bytes} {ws : List Bytes} (hne : w ≠ []) (hw : delimiter ∉ w)
      (h : Splits delimiter s ws) : Splits delimiter (w ++ delimiter :: s) (w :: ws)

theorem Splits.fields_eq (h : Splits delimiter s ws) : s.fields delimiter = ws := by
  induction h with
  | nil => rw [fields_of_notMem List.not_mem_nil, if_pos List.isEmpty_nil]
  | skip h ih =>
    rw [← List.nil_append (delimiter :: _), fields_append List.not_mem_nil, if_pos List.isEmpty_nil,
      ih]
  | last hne hw => rw [fields_of_notMem hw, if_neg (mt List.isEmpty_iff.1 hne)]
  | field hne hw h ih => rw [fields_append hw, if_neg (mt List.isEmpty_iff.1 hne), ih]

theorem splits_fields (delimiter : UInt8) (s : Bytes) :
    Splits delimiter s (s.fields delimiter) := by
  -- by the length of what is left, field by field
  induction hn : s.length using Nat.strong_induction_on generalizing s with
  | _ n ih =>
  by_cases hmem : delimiter ∈ s
  · obtain ⟨w, t, rfl, hw⟩ := List.eq_append_cons_of_mem hmem
    rw [List.length_append, List.length_cons] at hn
    have hrest := ih t.length (by omega) t rfl
    rw [fields_append hw]
    split
    · next hempty =>
      rw [List.isEmpty_iff.1 hempty]
      exact .skip hrest
    · next hne => exact .field (mt List.isEmpty_iff.2 hne) hw hrest
  · rw [fields_of_notMem hmem]
    split
    · next hempty =>
      rw [List.isEmpty_iff.1 hempty]
      exact .nil
    · next hne => exact .last (mt List.isEmpty_iff.2 hne) hmem

theorem splits_iff : Splits delimiter s ws ↔ s.fields delimiter = ws :=
  ⟨Splits.fields_eq, fun h => h ▸ splits_fields delimiter s⟩

/-- Any number of delimiters may stand in front. -/
theorem Splits.replicate_append (h : Splits delimiter s ws) (k : Nat) :
    Splits delimiter (List.replicate k delimiter ++ s) ws := by
  induction k with
  | zero => exact h
  | succ k ih => exact .skip ih

/-- A field in front is cut off at its delimiter, or is the last one. -/
theorem splits_append {w tail : Bytes} (hne : w ≠ []) (hw : delimiter ∉ w)
    (htail : tail = [] ∨ tail.head? = some delimiter) :
    ∃ ws, Splits delimiter (w ++ tail) (w :: ws) := by
  rcases htail with rfl | htail
  · rw [List.append_nil]
    exact ⟨[], .last hne hw⟩
  · obtain ⟨t, rfl⟩ := List.head?_eq_some_iff.1 htail
    exact ⟨fields t delimiter, .field hne hw (splits_fields delimiter t)⟩

/-- A field is not empty, and a part of the string without the delimiter. -/
theorem Splits.of_mem (h : Splits delimiter s ws) {f : Bytes} (hf : f ∈ ws) :
    f ≠ [] ∧ delimiter ∉ f ∧ f ⊆ s := by
  induction h with
  | nil => cases hf
  | @skip s ws h ih =>
    obtain ⟨hne, hnot, hsubset⟩ := ih hf
    exact ⟨hne, hnot, List.Subset.trans hsubset (List.subset_cons_self delimiter s)⟩
  | last hne hw =>
    obtain rfl := List.mem_singleton.1 hf
    exact ⟨hne, hw, List.Subset.refl f⟩
  | @field w s ws hne hw h ih =>
    rcases List.mem_cons.1 hf with rfl | hf
    · exact ⟨hne, hw, List.subset_append_left f (delimiter :: s)⟩
    · obtain ⟨hne, hnot, hsubset⟩ := ih hf
      refine ⟨hne, hnot, List.Subset.trans hsubset ?_⟩
      exact List.Subset.trans (List.subset_cons_self delimiter s)
        (List.subset_append_right w (delimiter :: s))

/-! ## Lines -/

/-- What is left of a string without its line end, if it has one. -/
inductive Trimmed : Bytes → Bytes → Prop
  | crlf (content : Bytes) : Trimmed (content ++ crlf) content
  | lf {content : Bytes} (h : content.getLast? ≠ some Byte.cr) :
      Trimmed (content ++ [Byte.lf]) content
  | none {content : Bytes} (h : content.getLast? ≠ some Byte.lf) : Trimmed content content

theorem Trimmed.trimLineEnding_eq (h : Trimmed line content) : line.trimLineEnding = content := by
  cases h with
  | crlf => exact trimLineEnding_crlf content
  | lf h => exact trimLineEnding_lf h
  | none h => exact trimLineEnding_of_getLast? h

theorem trimmed_trimLineEnding (line : Bytes) : Trimmed line line.trimLineEnding := by
  rcases ending line with ⟨s⟩ | @⟨s, h⟩ | h
  · rw [trimLineEnding_crlf]
    exact .crlf s
  · rw [trimLineEnding_lf h]
    exact .lf h
  · rw [trimLineEnding_of_getLast? h]
    exact .none h

theorem trimmed_iff : Trimmed line content ↔ line.trimLineEnding = content :=
  ⟨Trimmed.trimLineEnding_eq, fun h => h ▸ trimmed_trimLineEnding line⟩

/-- The words of a line: its content is these with spaces around them. -/
def HasWords (line : Bytes) (ws : List Bytes) : Prop :=
  ∃ content, Trimmed line content ∧ Splits Byte.space content ws

theorem hasWords_iff : line.HasWords ws ↔ line.trimLineEnding.fields Byte.space = ws := by
  simp only [HasWords, trimmed_iff, splits_iff, exists_eq_left']

theorem HasWords.unique (h : line.HasWords ws) (h' : line.HasWords ws') : ws = ws' := by
  rw [← hasWords_iff.1 h, hasWords_iff.1 h']

/-- What is said of the first word and of the others of a line is said of the words that it has. -/
theorem HasWords.exists_iff {w : Bytes} (h : line.HasWords (w :: ws))
    {P : Bytes → List Bytes → Prop} :
    (∃ w ws, line.HasWords (w :: ws) ∧ P w ws) ↔ P w ws := by
  refine ⟨?_, fun hw => ⟨w, ws, h, hw⟩⟩
  rintro ⟨w', ws', h', hw⟩
  obtain ⟨rfl, rfl⟩ := List.cons.inj (h.unique h')
  exact hw

end MailProtocol.Bytes
