import MailProtocol.Proofs.Imap.Outline

/-!
# Where a command is cut

A client that waits to be asked for its literals sends a command in segments. They are cut exactly
at the literals, wherever these stand in the arguments (`CutBy`): a segment ends in the announcement
of a literal, and the next one begins with the data. A client that does not wait sends the same
bytes in one piece, except that each announcement has a plus sign (`Segments.unasked`).

The flag of a command that says whether its sender has to wait is gathered argument by argument
while the command is put together (`Command.Built`), and not by the writer. It is right
(`Command.cutBy_write`).
-/

namespace MailProtocol

namespace Segments

/-- The segment with a plus sign in the announcement at its end, which closes with a brace and a
line end. -/
def withPlus (s : Bytes) : Bytes :=
  s.take (s.length - 3) ++ Byte.plus :: s.drop (s.length - 3)

/-- A segment and the ones behind it in one piece, each but the last with its plus sign. -/
def unaskedFrom (s : Bytes) : List Bytes → Bytes
  | [] => s
  | next :: more => withPlus s ++ unaskedFrom next more

/-- The segments as they go out from a client that does not wait to be asked for any of them. -/
def unasked (s : Segments) : Bytes := unaskedFrom s.first s.rest

theorem withPlus_literalMarker (s : Bytes) (binary : Bool) (n : Nat) :
    withPlus (s ++ Imap.Item.literalMarker false binary n)
      = s ++ Imap.Item.literalMarker true binary n := by
  have hplus (t : Bytes) : withPlus (t ++ Byte.closeBrace :: Bytes.crlf)
      = t ++ Byte.plus :: Byte.closeBrace :: Bytes.crlf := by
    have hlength : (t ++ Byte.closeBrace :: Bytes.crlf).length - 3 = t.length := by
      simp [Bytes.crlf]
    rw [withPlus, hlength, List.take_left, List.drop_left]
  unfold Imap.Item.literalMarker
  rw [← List.append_assoc, hplus]
  simp

theorem eq_ofBytes_concat {s : Segments} (h : s.rest = []) : s = .ofBytes s.concat := by
  obtain ⟨first, rest⟩ := s
  obtain rfl : rest = [] := h
  rw [concat, toList, List.flatten_singleton]
  rfl

end Segments

namespace Imap

/-- The segments begin with `front`, and are cut at these literals, each of which is given by its
data and whether it is a binary one: there is a segment for each literal, which ends in its
announcement, and its data begin the next. -/
def CutBy (front : Bytes) : List (Bytes × Bool) → List Bytes → Prop
  | [], segments => ∃ text, segments = [front ++ text]
  | (data, binary) :: more, segments =>
    ∃ text rest, segments = (front ++ text ++ Item.literalMarker false binary data.length) :: rest
      ∧ CutBy data more rest

/-- There is one segment more than there are literals. -/
theorem CutBy.length_eq {front : Bytes} {literals : List (Bytes × Bool)} {segments : List Bytes}
    (h : CutBy front literals segments) : segments.length = literals.length + 1 := by
  induction literals generalizing front segments with
  | nil =>
    obtain ⟨text, rfl⟩ := h
    rfl
  | cons announced literals ih =>
    obtain ⟨text, rest, rfl, hrest⟩ := h
    rw [List.length_cons, ih hrest, List.length_cons]

/-! ## Literals in the order in which they are announced -/

namespace Item

mutual

/-- The literals of an item, before those that come after them, each with whether it is binary. -/
def announced : Item → List (Bytes × Bool)
  | literal s binary => [(s, binary)]
  | list items => announcedAll items
  | atom _ | quoted _ | nil => []

/-- The literals of the items, in order. -/
def announcedAll : List Item → List (Bytes × Bool)
  | [] => []
  | x :: xs => announced x ++ announcedAll xs

end

end Item

namespace Outline

/-- The literals that cut the text, in order. -/
def announced : Outline → List (Bytes × Bool)
  | text _ => []
  | literal _ data binary more => (data, binary) :: more.announced

theorem announced_prepend (s : Bytes) (o : Outline) : (o.prepend s).announced = o.announced := by
  cases o <;> rfl

theorem announced_append (o o' : Outline) : (o ++ o').announced = o.announced ++ o'.announced := by
  induction o with
  | text s => exact announced_prepend s o'
  | literal before data binary more ih => rw [literal_append, announced, ih]; rfl

theorem map_fst_announced (o : Outline) : o.announced.map Prod.fst = o.literals := by
  induction o with
  | text s => rfl
  | literal before data binary more ih => rw [announced, List.map_cons, ih, literals]

/-- A client that waits is cut at each literal of the outline. -/
theorem cutBy_segments (front : Bytes) (o : Outline) :
    CutBy front o.announced ((o.prepend front).segments .synchronising).toList := by
  induction o generalizing front with
  | text s => exact ⟨s, rfl⟩
  | literal before data binary more ih =>
    have hmore := ih data
    rw [segments_prepend] at hmore
    show CutBy front _ ((literal (front ++ before) data binary more).segments _).toList
    rw [segments_synchronising]
    exact ⟨before, _, rfl, hmore⟩

/-- One that does not wait sends the same with a plus sign in each announcement. -/
theorem concat_segments_nonSynchronising (front : Bytes) (o : Outline) :
    ((o.prepend front).segments .nonSynchronising).concat
      = ((o.prepend front).segments .synchronising).unasked := by
  induction o generalizing front with
  | text s => exact Segments.concat_ofBytes _
  | literal before data binary more ih =>
    have hmore := ih data
    rw [segments_prepend, segments_prepend, Segments.concat_append,
      Segments.concat_ofBytes] at hmore
    have hline : line .nonSynchronising (front ++ before) data binary
        = Segments.withPlus (line .synchronising (front ++ before) data binary) :=
      (Segments.withPlus_literalMarker (front ++ before) binary data.length).symm
    show ((literal (front ++ before) data binary more).segments _).concat
      = ((literal (front ++ before) data binary more).segments _).unasked
    rw [concat_segments_literal, segments_synchronising, hmore, hline]
    rfl

end Outline

namespace Item

mutual

theorem announced_outline : ∀ x : Item, x.outline.announced = x.announced
  | atom s | quoted s | nil => rfl
  | literal s binary => rfl
  | list items => by
    rw [outline, Outline.announced_prepend, Outline.announced_append, announced_outlineAll items,
      announced]
    exact List.append_nil _

theorem announced_outlineAll : ∀ xs : List Item, (outlineAll xs).announced = announcedAll xs
  | [] => rfl
  | x :: xs => by
    rw [outlineAll, Outline.announced_append, announced_outline x, announced_outlineMore xs,
      announcedAll]

theorem announced_outlineMore : ∀ xs : List Item, (outlineMore xs).announced = announcedAll xs
  | [] => rfl
  | x :: xs => by
    rw [outlineMore, Outline.announced_prepend, Outline.announced_append, announced_outline x,
      announced_outlineMore xs, announcedAll]

end

theorem anyLiteral_append (xs ys : List Item) :
    anyLiteral (xs ++ ys) = (anyLiteral xs || anyLiteral ys) := by
  induction xs with
  | nil => rfl
  | cons x xs ih => rw [List.cons_append, anyLiteral, anyLiteral, ih, Bool.or_assoc]

end Item

/-! ## Commands that are put together -/

namespace Command

/-- The command has been put together: from a tag and a verb, with the prefix or without, and one
argument after another. -/
inductive Built : Command → Prop
  | new (tag verb : Bytes) : Built { tag, verb }
  | uid {c : Command} (hc : Built c) : Built { c with uid := true }
  | arg {c : Command} (hc : Built c) (x : Item) : Built (c.arg x)

/-- The flag for a wait is set as soon as there is a literal at some depth. -/
theorem Built.continuation_eq {c : Command} (h : Built c) :
    c.continuation = Item.anyLiteral c.args := by
  induction h with
  | new tag verb => rfl
  | uid _ ih => exact ih
  | @arg c _ x ih =>
    have hlast : Item.anyLiteral [x] = x.hasLiteral := Bool.or_false _
    show (c.continuation || x.hasLiteral) = Item.anyLiteral (c.args ++ [x])
    rw [Item.anyLiteral_append, ih, hlast]

theorem announced_outline (c : Command) : c.outline.announced = Item.announcedAll c.args := by
  rw [outline, Outline.announced_prepend, Outline.announced_append, Item.announced_outlineMore]
  exact List.append_nil _

theorem literals_eq_map_announced (c : Command) :
    c.literals = (Item.announcedAll c.args).map Prod.fst := by
  rw [← announced_outline, Outline.map_fst_announced, literals_outline]

/-- A client that waits is cut at each literal of the command. -/
theorem cutBy_toList (c : Command) :
    CutBy [] (Item.announcedAll c.args) (c.write { literalPlus := false }).toList := by
  have hcut := Outline.cutBy_segments [] c.outline
  rw [Outline.prepend_nil, announced_outline] at hcut
  rw [write_eq_segments]
  exact hcut

/-- One that does not wait is not cut. -/
theorem write_eq_ofBytes_unasked (c : Command) :
    c.write { literalPlus := true } = .ofBytes (c.write { literalPlus := false }).unasked := by
  have hconcat := Outline.concat_segments_nonSynchronising [] c.outline
  have hrest : (c.outline.segments .nonSynchronising).rest = [] :=
    Outline.rest_segments (by decide) c.outline
  rw [Outline.prepend_nil] at hconcat
  rw [write_eq_segments, write_eq_segments]
  show c.outline.segments .nonSynchronising = .ofBytes (c.outline.segments .synchronising).unasked
  rw [← hconcat]
  exact Segments.eq_ofBytes_concat hrest

/-- The command's flag says whether there is a literal. -/
theorem Built.continuation_iff {c : Command} (h : Built c) :
    c.continuation = true ↔ 0 < (Item.announcedAll c.args).length := by
  rw [h.continuation_eq, Item.anyLiteral_iff, List.length_pos_iff]
  show c.literals ≠ [] ↔ _
  rw [literals_eq_map_announced, ne_eq, List.map_eq_nil_iff]

/-- A command is cut exactly at its literals by a client that waits, and not at all by one that does
not, which says so in each announcement and sends the same otherwise. The command's flag says
whether there is a cut to wait at. -/
theorem cutBy_write {c : Command} (h : Built c) :
    CutBy [] (Item.announcedAll c.args) (c.write { literalPlus := false }).toList
      ∧ (c.write { literalPlus := false }).count = (Item.announcedAll c.args).length + 1
      ∧ c.write { literalPlus := true } = .ofBytes (c.write { literalPlus := false }).unasked
      ∧ (c.continuation = true ↔ 1 < (c.write { literalPlus := false }).count) := by
  have hcount : (c.write { literalPlus := false }).count
      = (Item.announcedAll c.args).length + 1 := (cutBy_toList c).length_eq
  refine ⟨cutBy_toList c, hcount, write_eq_ofBytes_unasked c, ?_⟩
  rw [hcount, h.continuation_iff]
  omega

/-- A command with an empty literal, a binary one at some depth, and one that looks like an
announcement. -/
theorem cutBy_write_appendCommand :
    let c : Command := ((({ tag := Bytes.ascii "a1", verb := Bytes.ascii "APPEND" } : Command).arg
      (.literal [] false)).arg (.list [.nil, .list [.literal (Bytes.ascii "x\x00") true]])).arg
      (.literal (Bytes.ascii "\x7b3\x7d\r\n") false)
    c.write { literalPlus := false } = ⟨Bytes.ascii "a1 APPEND \x7b0\x7d\r\n",
        [Bytes.ascii " (NIL (~\x7b2\x7d\r\n", Bytes.ascii "x\x00)) \x7b5\x7d\r\n",
          Bytes.ascii "\x7b3\x7d\r\n\r\n"]⟩
      ∧ CutBy [] (Item.announcedAll c.args) (c.write { literalPlus := false }).toList
      ∧ (c.write { literalPlus := false }).count = (Item.announcedAll c.args).length + 1
      ∧ c.write { literalPlus := true } = .ofBytes (c.write { literalPlus := false }).unasked
      ∧ (c.continuation = true ↔ 1 < (c.write { literalPlus := false }).count) :=
  ⟨by decide +kernel, cutBy_write (.arg (.arg (.arg (.new _ _) _) _) _)⟩

end Command

end Imap

end MailProtocol
