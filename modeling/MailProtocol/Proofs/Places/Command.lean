import MailProtocol.Imap.Command
import MailProtocol.Proofs.Places.Item
import MailProtocol.Proofs.Places.Line

/-!
# Reading IMAP commands by places

A command is read by the places where its tag and its verb end, each found by a search of its own.
The reading comes to what `Command.parse` finds (`Command.comes_parseAt`), because each word begins
behind the space that ended the one before it.
-/

namespace MailProtocol.Imap.Command

/-- Read the arguments of a command whose verb stands between two places. -/
def verbAt (maxLiteral : Nat) (tag : Bytes) (uid : Bool) (s : Bytes) (start stop : Nat) :
    Except Trap (Except Malformed (Placed Command)) :=
  if start = stop then .ok (.error { fault := .missingCommand, tag := some tag })
  else do
    let verb ← s.part start stop
    if s[stop]? = some Byte.cr ∧ s[stop + 1]? = some Byte.lf then
      return .ok (.complete { tag, verb, uid } (stop + 2))
    else if s[stop]? = some Byte.space then
      match ← Item.parseAt maxLiteral s (stop + 1) with
      | .error fault => return .error { fault, tag := some tag }
      | .ok (.incomplete needs) => return .ok (.incomplete needs)
      | .ok (.complete args waits place) =>
        return .ok (.complete { tag, verb, uid, args, continuation := 0 < waits } place)
    else return .error { fault := .invalidCommandLine, tag := some tag }

/-- Read what follows the tag of a command and the space behind it. -/
def uidAt (maxLiteral : Nat) (tag : Bytes) (s : Bytes) (start : Nat) :
    Except Trap (Except Malformed (Placed Command)) := do
  let stop := Line.wordEnd s start
  let word ← s.part start stop
  if Bytes.eqIgnoreCase word uidWord then
    if s[stop]? ≠ some Byte.space then
      return .error { fault := .uidWithoutCommand, tag := some tag }
    else verbAt maxLiteral tag true s (stop + 1) (Line.wordEnd s (stop + 1))
  else verbAt maxLiteral tag false s start stop

/-- Read a command. -/
def parseAt (maxLiteral : Nat) (s : Bytes) : Except Trap (Except Malformed (Placed Command)) :=
  let tagEnd := Line.wordEnd s 0
  if tagEnd = 0 then .ok (.error { fault := .missingTag })
  else do
    let tag ← s.part 0 tagEnd
    if !tag.all Tag.isTagByte then return .error { fault := .invalidTag }
    else if s[tagEnd]? ≠ some Byte.space then
      return .error { fault := .missingCommand, tag := some tag }
    else uidAt maxLiteral tag s (tagEnd + 1)

variable {maxLiteral ix : Nat} {s t : Bytes}

/-- The verb and the arguments behind it are read by places as they are read from the front. -/
theorem comes_verbAt (h : At s ix t) (tag : Bytes) (uid : Bool) :
    Comes (s.length + maxLiteral < UInt64.size) (verbAt maxLiteral tag uid s ix (Line.wordEnd s ix))
      ((parseVerb maxLiteral tag uid t).map (Parsed.placed s)) := by
  have hafter := Line.at_wordEnd h
  unfold parseVerb
  simp only
  by_cases hempty : (Line.word t).isEmpty
  · rw [if_pos hempty, verbAt, if_pos ((Line.wordEnd_eq_iff h).2 hempty).symm]
    exact .pure _
  · have hne : ix ≠ Line.wordEnd s ix := fun he => hempty ((Line.wordEnd_eq_iff h).1 he.symm)
    rw [if_neg hempty]
    -- behind the verb stands a line end, a space, or neither
    split
    · next rest hu =>
      rw [hu] at hafter
      rw [verbAt, if_neg hne, Line.part_wordEnd h]
      show Comes _ (if s[_]? = some Byte.cr ∧ s[_ + 1]? = some Byte.lf then _ else _) _
      rw [if_pos ⟨hafter.get, hafter.tail.get⟩, ← hafter.tail.tail.place_eq]
      exact .pure _
    · next u hu =>
      rw [hu] at hafter
      have hspace : s[Line.wordEnd s ix]? = some Byte.space := hafter.get
      rw [verbAt, if_neg hne, Line.part_wordEnd h]
      show Comes _ (if s[_]? = some Byte.cr ∧ s[_ + 1]? = some Byte.lf then _ else _) _
      rw [if_neg fun hcr => absurd (hspace.symm.trans hcr.1) (by decide), if_pos hspace]
      refine (Item.comes_parseAt hafter.tail).bind ?_
      rcases Item.parse maxLiteral u with fault | ⟨args, waits, rest⟩ | needs <;> exact .pure _
    · next hline hspace =>
      rw [verbAt, if_neg hne, Line.part_wordEnd h]
      generalize Line.afterWord t = u at hafter hline hspace
      generalize Line.wordEnd s ix = stop at hafter
      have hcrlf : ¬(s[stop]? = some Byte.cr ∧ s[stop + 1]? = some Byte.lf) := by
        rintro ⟨hcr, hlf⟩
        obtain ⟨v, rfl⟩ := hafter.get_eq_some_iff.1 hcr
        obtain ⟨w, rfl⟩ := hafter.tail.get_eq_some_iff.1 hlf
        exact hline w rfl
      have hother : s[stop]? ≠ some Byte.space := by
        intro hhead
        obtain ⟨v, rfl⟩ := hafter.get_eq_some_iff.1 hhead
        exact hspace v rfl
      show Comes _ (if s[stop]? = some Byte.cr ∧ s[stop + 1]? = some Byte.lf then _ else _) _
      rw [if_neg hcrlf, if_neg hother]
      exact .pure _

/-- What follows the tag is read by places as it is read from the front. -/
theorem comes_uidAt (h : At s ix t) (tag : Bytes) :
    Comes (s.length + maxLiteral < UInt64.size) (uidAt maxLiteral tag s ix)
      (Except.map (Parsed.placed s) (
        if Bytes.eqIgnoreCase (Line.word t) uidWord then
          match Line.afterWord t with
          | Byte.space :: u => parseVerb maxLiteral tag true u
          | _ => .error { fault := .uidWithoutCommand, tag := some tag }
        else parseVerb maxLiteral tag false t)) := by
  have hafter := Line.at_wordEnd h
  unfold uidAt
  simp only [Line.part_wordEnd h]
  show Comes _ (if Bytes.eqIgnoreCase (Line.word t) uidWord then _ else _) _
  by_cases huid : Bytes.eqIgnoreCase (Line.word t) uidWord
  · rw [if_pos huid, if_pos huid]
    by_cases hspace : s[Line.wordEnd s ix]? = some Byte.space
    · obtain ⟨u, hu⟩ := hafter.get_eq_some_iff.1 hspace
      rw [if_neg (not_not_intro hspace), hu]
      rw [hu] at hafter
      exact comes_verbAt hafter.tail tag true
    · rw [if_pos hspace]
      split
      · next u hu => exact absurd (hafter.get_eq_some_iff.2 ⟨u, hu⟩) hspace
      · exact .pure _
  · rw [if_neg huid, if_neg huid]
    exact comes_verbAt h tag false

/-- Commands are read by places as they are read from the front. -/
theorem comes_parseAt (maxLiteral : Nat) (s : Bytes) :
    Comes (s.length + maxLiteral < UInt64.size) (parseAt maxLiteral s)
      ((parse maxLiteral s).map (Parsed.placed s)) := by
  have hstart := At.start s
  have hafter := Line.at_wordEnd hstart
  unfold parseAt parse
  simp only [Line.part_wordEnd hstart]
  by_cases hempty : (Line.word s).isEmpty
  · rw [if_pos ((Line.wordEnd_eq_iff hstart).2 hempty), if_pos hempty]
    exact .pure _
  · rw [if_neg (mt (Line.wordEnd_eq_iff hstart).1 hempty), if_neg hempty]
    show Comes _ (if !(Line.word s).all Tag.isTagByte then _ else _) _
    by_cases htag : !(Line.word s).all Tag.isTagByte
    · rw [if_pos htag, if_pos htag]
      exact .pure _
    · rw [if_neg htag, if_neg htag]
      by_cases hspace : s[Line.wordEnd s 0]? = some Byte.space
      · obtain ⟨u, hu⟩ := hafter.get_eq_some_iff.1 hspace
        rw [if_neg (not_not_intro hspace), hu]
        rw [hu] at hafter
        exact comes_uidAt hafter.tail (Line.word s)
      · rw [if_pos hspace]
        split
        · next u hu => exact absurd (hafter.get_eq_some_iff.2 ⟨u, hu⟩) hspace
        · exact .pure _

/-- How servers read commands by places. -/
def places (config : Config) : (grammar config).Places where
  parseAt _ s := do return ((), ← parseAt config.limits.maxLiteralLength s)
  maxLiteral := some config.limits.maxLiteralLength

theorem reads_places (config : Config) : (places config).Reads := fun _ s =>
  ((comes_parseAt config.limits.maxLiteralLength s).mono fun h => h _ rfl).bind (.pure _)

end MailProtocol.Imap.Command
