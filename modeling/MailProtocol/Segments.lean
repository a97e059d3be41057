import MailProtocol.Bytes.Basic

/-!
# Output cut into segments

A unit is written in one or more segments. The first can be sent at once; each further one only
after the other end has asked for it. Most units have one.

Segments are joined by `++`: the last segment of the left operand runs on into the first of the
right one, so a writer is composed of writers of parts, and `Segments.pause` is the part that
writes nothing and waits.
-/

namespace MailProtocol

/-- The output for one unit. -/
structure Segments where
  /-- What can be sent at once. -/
  first : Bytes
  /-- What has to wait, in order. -/
  rest : List Bytes
deriving DecidableEq, Repr

namespace Segments

/-- Output without a wait. -/
def ofBytes (s : Bytes) : Segments := ⟨s, []⟩

/-- Nothing at all. -/
def empty : Segments := ofBytes []

/-- Nothing but a wait. -/
def pause : Segments := ⟨[], [[]]⟩

/-- The segments in order, the first of which there always is. -/
def toList (s : Segments) : List Bytes := s.first :: s.rest

/-- Segments of which `first` and `rest` come before those of `t`. -/
def join (first : Bytes) (rest : List Bytes) (t : Segments) : Segments :=
  match rest with
  | [] => ⟨first ++ t.first, t.rest⟩
  | next :: more => ⟨first, (join next more t).toList⟩

/-- One output after another. -/
def append (s t : Segments) : Segments := join s.first s.rest t

instance : Append Segments := ⟨append⟩

/-- How many segments there are. -/
def count (s : Segments) : Nat := s.toList.length

/-- All that is sent in the end. -/
def concat (s : Segments) : Bytes := s.toList.flatten

theorem concat_ofBytes (s : Bytes) : (ofBytes s).concat = s := by simp [concat, toList, ofBytes]

theorem concat_empty : empty.concat = [] := rfl

theorem concat_pause : pause.concat = [] := rfl

/-- Joining segments loses nothing and adds nothing. -/
theorem concat_append (s t : Segments) : (s ++ t).concat = s.concat ++ t.concat := by
  obtain ⟨first, rest⟩ := s
  show (join first rest t).concat = _
  induction rest generalizing first with
  | nil => simp [join, concat, toList]
  | cons next more ih =>
    have hmore := ih next
    simp only [concat, toList, List.flatten_cons] at hmore
    simp only [join, concat, toList, List.flatten_cons, hmore, List.append_assoc]

end Segments

end MailProtocol
