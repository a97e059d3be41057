import MailProtocol.Bytes.Basic

/-!
# Lines, words and fields

How a string of bytes is cut: at its first line end (`splitLine?`), at its first space
(`splitWord`), at every occurrence of a byte (`fields`), and how line ends and outer spaces are
taken off.

The small lemmas say that the cuts lose nothing: a line and what follows it make up the string,
and a line ends in its only line feed.
-/

namespace MailProtocol.Bytes

/-- Cut off the first line, its line feed included; `none` if no line feed is there. -/
def splitLine? (s : Bytes) : Option (Bytes × Bytes) :=
  match s.dropWhile (· != Byte.lf) with
  | [] => none
  | b :: rest => some (s.takeWhile (· != Byte.lf) ++ [b], rest)

/-- Whether a whole line is there. -/
def hasLine (s : Bytes) : Bool := s.contains Byte.lf

/-- Take off one line end, CRLF or a bare line feed. -/
def trimLineEnding (s : Bytes) : Bytes :=
  match s.reverse with
  | Byte.lf :: Byte.cr :: r => r.reverse
  | Byte.lf :: r => r.reverse
  | _ => s

/-- The last line of a string that ends in a line end, without that line end. -/
def lastLine? (s : Bytes) : Option Bytes :=
  match s.reverse with
  | Byte.lf :: Byte.cr :: r => some (r.takeWhile (· != Byte.lf)).reverse
  | Byte.lf :: r => some (r.takeWhile (· != Byte.lf)).reverse
  | _ => none

/-- Take off the spaces at both ends, and nothing else. -/
def trimSpaces (s : Bytes) : Bytes :=
  ((s.dropWhile (· == Byte.space)).reverse.dropWhile (· == Byte.space)).reverse

/-- The bytes before the first space, and those after it. -/
def splitWord (s : Bytes) : Bytes × Bytes :=
  (s.takeWhile (· != Byte.space), (s.dropWhile (· != Byte.space)).drop 1)

/-- The non-empty pieces between occurrences of `delimiter`. -/
def fields (s : Bytes) (delimiter : UInt8) : List Bytes :=
  (s.splitOn delimiter).filter (!·.isEmpty)

/-! ## What the cuts keep -/

/-- A line and what follows it are the whole string. -/
theorem append_of_splitLine? {s line rest : Bytes} (h : splitLine? s = some (line, rest)) :
    line ++ rest = s := by
  unfold splitLine? at h
  split at h
  · simp at h
  · next b r hd =>
    obtain ⟨rfl, rfl⟩ := by simpa using h
    have := List.takeWhile_append_dropWhile (p := (· != Byte.lf)) (l := s)
    rw [hd] at this
    simpa using this

/-- A line is never empty. -/
theorem ne_nil_of_splitLine? {s line rest : Bytes} (h : splitLine? s = some (line, rest)) :
    line ≠ [] := by
  unfold splitLine? at h
  split at h
  · simp at h
  · obtain ⟨rfl, rfl⟩ := by simpa using h
    simp

/-- What follows a line is shorter than the string. -/
theorem length_of_splitLine? {s line rest : Bytes} (h : splitLine? s = some (line, rest)) :
    line.length + rest.length = s.length := by
  rw [← append_of_splitLine? h, List.length_append]

/-- A line cut off takes at least one byte. -/
theorem length_lt_of_splitLine? {s line rest : Bytes} (h : splitLine? s = some (line, rest)) :
    rest.length < s.length := by
  have := length_of_splitLine? h
  have := List.length_pos_iff.2 (ne_nil_of_splitLine? h)
  omega

end MailProtocol.Bytes
