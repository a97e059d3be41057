import MailProtocol.Bytes.Split
import MailProtocol.Malformed

/-!
# Lines and words of a fragment

Protocol lines end in CRLF. `Line.first` takes the first line off a fragment, without its line end,
and refuses a line feed that stands alone. A word ends at a space or at the end of its line.
-/

namespace MailProtocol.Line

/-- The content of the first line, and what follows its line end. -/
def first (s : Bytes) : Except Fault (Bytes × Bytes) :=
  match s.splitLine? with
  | none => .error .missingLineEnding
  | some (line, rest) =>
    match line.reverse with
    | Byte.lf :: Byte.cr :: content => .ok (content.reverse, rest)
    | _ => .error .bareLineFeed

/-- A byte that ends a word. -/
def endsWord (b : UInt8) : Bool := b == Byte.space || b == Byte.cr || b == Byte.lf

/-- The word at the front. -/
def word (s : Bytes) : Bytes := s.takeWhile (!endsWord ·)

/-- What follows the word at the front. -/
def afterWord (s : Bytes) : Bytes := s.dropWhile (!endsWord ·)

/-! ## What is left is the end of what there was -/

theorem suffix_of_first {s content rest : Bytes} (h : first s = .ok (content, rest)) :
    rest <:+ s ∧ rest.length < s.length := by
  unfold first at h
  split at h
  · simp at h
  · next line rest' hsplit =>
    split at h
    · simp only [Except.ok.injEq, Prod.mk.injEq] at h
      obtain ⟨-, rfl⟩ := h
      exact ⟨⟨line, Bytes.append_of_splitLine? hsplit⟩, Bytes.length_lt_of_splitLine? hsplit⟩
    · simp at h

theorem suffix_of_afterWord {b : UInt8} {s rest : Bytes} (h : afterWord s = b :: rest) :
    rest <:+ s :=
  (List.suffix_cons b rest).trans (h ▸ List.dropWhile_suffix _)

end MailProtocol.Line
