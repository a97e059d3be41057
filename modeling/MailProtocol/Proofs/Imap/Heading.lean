import MailProtocol.Imap.Command
import MailProtocol.Proofs.Bytes.Words

/-!
# The heading of a command

A command begins with its tag and its verb, and perhaps the prefix `UID` between them
(`Command.Heading`). What follows the heading is the line end, or a space and the arguments, and how
these are read does not depend on the heading (`parse_heading_space`). Whatever is read as a command
has a heading (`heading_of_parse`).
-/

namespace MailProtocol.Imap.Command

/-- A tag that servers accept. -/
def IsTag (tag : Bytes) : Prop := tag ≠ [] ∧ ∀ b ∈ tag, Tag.isTagByte b = true

/-- The text before the arguments. -/
inductive Heading (tag : Bytes) : Bool → Bytes → Bytes → Prop
  | plain {verb : Bytes} (htag : IsTag tag) (hverb : Line.IsWord verb)
    (huid : Bytes.eqIgnoreCase verb uidWord = false) :
    Heading tag false verb (tag ++ Byte.space :: verb)
  | uid {verb mark : Bytes} (htag : IsTag tag) (hverb : Line.IsWord verb)
    (hmark : ∀ b ∈ mark, Line.endsWord b = false)
    (huid : Bytes.eqIgnoreCase mark uidWord = true) :
    Heading tag true verb (tag ++ Byte.space :: (mark ++ Byte.space :: verb))

theorem endsWord_of_isTagByte {b : UInt8} (h : Tag.isTagByte b = true) :
    Line.endsWord b = false := by
  simp only [Tag.isTagByte, Bool.and_eq_true, decide_eq_true_eq, UInt8.le_iff_toNat_le] at h
  have hlow : 0x21 ≤ b.toNat := h.1.1
  have hne (c : UInt8) (hc : c.toNat < 0x21) : (b == c) = false := by
    rw [beq_eq_false_iff_ne]
    rintro rfl
    omega
  simp only [Line.endsWord, hne Byte.space (by decide), hne Byte.cr (by decide),
    hne Byte.lf (by decide), Bool.or_self]

/-- No byte of a tag ends a word. -/
theorem IsTag.endsWord {tag : Bytes} (h : IsTag tag) : ∀ b ∈ tag, Line.endsWord b = false :=
  fun b hb => endsWord_of_isTagByte (h.2 b hb)

/-- A heading is part of one line. -/
theorem Heading.lf_notMem {tag verb text : Bytes} {uid : Bool} (h : Heading tag uid verb text) :
    Byte.lf ∉ text := by
  cases h with
  | plain htag hverb _ =>
    rw [List.mem_append, List.mem_cons, not_or, not_or]
    exact ⟨Line.lf_notMem_of_endsWord htag.endsWord, by decide,
      Line.lf_notMem_of_endsWord hverb.2⟩
  | uid htag hverb hmark _ =>
    rw [List.mem_append, List.mem_cons, List.mem_append, List.mem_cons, not_or, not_or, not_or,
      not_or]
    exact ⟨Line.lf_notMem_of_endsWord htag.endsWord, by decide,
      Line.lf_notMem_of_endsWord hmark, by decide, Line.lf_notMem_of_endsWord hverb.2⟩

/-! ## What follows the heading -/

variable {maxLiteral : Nat} {tag verb text : Bytes} {uid : Bool}

/-- A command whose arguments have been read. -/
def ofScan (tag : Bytes) (uid : Bool) (verb : Bytes) :
    Except Fault Scan → Except Malformed (Parsed Command)
  | .error fault => .error { fault, tag := some tag }
  | .ok (.incomplete needs) => .ok (.incomplete needs)
  | .ok (.complete args waits rest) =>
    .ok (.complete { tag, verb, uid, args, continuation := 0 < waits } rest)

theorem parseVerb_space (hverb : Line.IsWord verb) (s : Bytes) :
    parseVerb maxLiteral tag uid (verb ++ Byte.space :: s)
      = ofScan tag uid verb (Item.parse maxLiteral s) := by
  obtain ⟨hword, hafter⟩ := Line.word_append hverb.2 (b := Byte.space) rfl s
  unfold parseVerb
  simp only [hword, hafter, List.isEmpty_eq_false_iff.2 hverb.1, Bool.false_eq_true, if_false]
  rfl

theorem parseVerb_crlf (hverb : Line.IsWord verb) (rest : Bytes) :
    parseVerb maxLiteral tag uid (verb ++ (Bytes.crlf ++ rest))
      = .ok (.complete { tag, verb, uid } rest) := by
  obtain ⟨hword, hafter⟩ := Line.word_append hverb.2 (b := Byte.cr) rfl (Byte.lf :: rest)
  unfold parseVerb
  simp only [Bytes.crlf, List.cons_append, List.nil_append, hword, hafter,
    List.isEmpty_eq_false_iff.2 hverb.1, Bool.false_eq_true, if_false]
  rfl

/-- The heading is taken off. -/
theorem parse_of_heading (h : Heading tag uid verb text) {b : UInt8} (hb : Line.endsWord b = true)
    (s : Bytes) :
    parse maxLiteral (text ++ b :: s) = parseVerb maxLiteral tag uid (verb ++ b :: s) := by
  cases h with
  | plain htag hverb huid =>
    obtain ⟨hword, hafter⟩ :=
      Line.word_append htag.endsWord (b := Byte.space) rfl (verb ++ b :: s)
    obtain ⟨hword', -⟩ := Line.word_append hverb.2 hb s
    rw [List.append_assoc, List.cons_append]
    unfold parse
    simp only [hword, hafter, List.isEmpty_eq_false_iff.2 htag.1, List.all_eq_true.2 htag.2,
      Bool.false_eq_true, if_false, Bool.not_true]
    show (if Bytes.eqIgnoreCase (Line.word (verb ++ b :: s)) uidWord = true then _ else _) = _
    rw [hword', huid]
    rfl
  | @uid _ mark htag hverb hmark huid =>
    obtain ⟨hword, hafter⟩ :=
      Line.word_append htag.endsWord (b := Byte.space) rfl (mark ++ Byte.space :: (verb ++ b :: s))
    obtain ⟨hword', hafter'⟩ := Line.word_append hmark (b := Byte.space) rfl (verb ++ b :: s)
    rw [List.append_assoc, List.cons_append, List.append_assoc, List.cons_append]
    unfold parse
    simp only [hword, hafter, List.isEmpty_eq_false_iff.2 htag.1, List.all_eq_true.2 htag.2,
      Bool.false_eq_true, if_false, Bool.not_true]
    show (if Bytes.eqIgnoreCase (Line.word (mark ++ Byte.space :: (verb ++ b :: s))) uidWord = true
      then _ else _) = _
    rw [hword', if_pos huid, hafter']
    rfl

/-- After the heading and a space the arguments are read. -/
theorem parse_heading_space (h : Heading tag uid verb text) (s : Bytes) :
    parse maxLiteral (text ++ Byte.space :: s)
      = ofScan tag uid verb (Item.parse maxLiteral s) := by
  rw [parse_of_heading h rfl]
  cases h with
  | plain _ hverb _ => exact parseVerb_space hverb s
  | uid _ hverb _ _ => exact parseVerb_space hverb s

/-- A line end right after the heading ends a command without arguments. -/
theorem parse_heading_crlf (h : Heading tag uid verb text) (rest : Bytes) :
    parse maxLiteral (text ++ (Bytes.crlf ++ rest)) = .ok (.complete { tag, verb, uid } rest) := by
  rw [Bytes.crlf, List.cons_append, parse_of_heading h rfl]
  cases h with
  | plain _ hverb _ => exact parseVerb_crlf hverb rest
  | uid _ hverb _ _ => exact parseVerb_crlf hverb rest

/-! ## What is read has a heading -/

/-- What follows a heading: a line end, or a space and the arguments. -/
inductive FollowsHeading : Bytes → Prop
  | crlf (rest : Bytes) : FollowsHeading (Bytes.crlf ++ rest)
  | space (args : Bytes) : FollowsHeading (Byte.space :: args)

theorem verb_of_parseVerb {s : Bytes} {p : Parsed Command}
    (h : parseVerb maxLiteral tag uid s = .ok p) :
    Line.IsWord (Line.word s) ∧ FollowsHeading (Line.afterWord s) := by
  unfold parseVerb at h
  simp only at h
  split at h
  · cases h
  · next hempty =>
    refine ⟨Line.isWord_word (by simpa using hempty), ?_⟩
    split at h
    · next rest hafter =>
      rw [hafter]
      exact .crlf rest
    · next args hafter =>
      rw [hafter]
      exact .space args
    · cases h

/-- What is read as a command begins with a heading. -/
theorem heading_of_parse {s : Bytes} {p : Parsed Command} (h : parse maxLiteral s = .ok p) :
    ∃ tag uid verb text after,
      Heading tag uid verb text ∧ FollowsHeading after ∧ s = text ++ after := by
  unfold parse at h
  simp only at h
  split at h
  · cases h
  · next hempty =>
    split at h
    · cases h
    · next hbytes =>
      -- the first word is the tag, and the next one is the prefix or the verb
      have htag : IsTag (Line.word s) :=
        ⟨by simpa using hempty, List.all_eq_true.1 (by simpa using hbytes)⟩
      split at h
      · next more hafter =>
        have hs : Line.word s ++ Byte.space :: more = s := hafter ▸ Line.word_append_afterWord s
        split at h
        · next huid =>
          split at h
          · next left hafter' =>
            have hmore : Line.word more ++ Byte.space :: left = more :=
              hafter' ▸ Line.word_append_afterWord more
            obtain ⟨hverb, hfollows⟩ := verb_of_parseVerb h
            refine ⟨_, _, _, _, _, .uid htag hverb (fun _ => Line.endsWord_of_mem_word) huid,
              hfollows, ?_⟩
            rw [List.append_assoc, List.cons_append, List.append_assoc, List.cons_append,
              Line.word_append_afterWord, hmore, hs]
          · cases h
        · next huid =>
          obtain ⟨hverb, hfollows⟩ := verb_of_parseVerb h
          refine ⟨_, _, _, _, _, .plain htag hverb (by simpa using huid), hfollows, ?_⟩
          rw [List.append_assoc, List.cons_append, Line.word_append_afterWord, hs]
      · cases h

end MailProtocol.Imap.Command
