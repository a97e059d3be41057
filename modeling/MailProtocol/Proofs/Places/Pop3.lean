import MailProtocol.Pop3.Command
import MailProtocol.Pop3.Response
import MailProtocol.Proofs.Bytes.Fields
import MailProtocol.Proofs.Places.Line

/-!
# Reading POP3 by places

A line is cut out of the fragment by the place of its carriage return, and cut further by the first
space, by every space, or by the brackets of a code. Every cut is at a place that a search has found
inside the line, or right behind it. No places are added to anything that comes from the wire, so
the readings come to what `Command.parse` and `Response.parse` find without a condition
(`Command.parseAt_eq`, `Response.parseAt_eq`).
-/

namespace MailProtocol

/-! ## Words and fields of a line -/

namespace Bytes

/-- The bytes before the first space, and those after it. -/
def splitWordAt (s : Bytes) : Except Trap (Bytes × Bytes) :=
  match s.indexOf? Byte.space with
  | some space => do return (← s.part 0 space, ← s.partFrom (space + 1))
  | none => .ok (s, [])

theorem splitWordAt_eq (s : Bytes) : splitWordAt s = .ok s.splitWord := by
  have hcut := cut Byte.space s
  unfold splitWordAt splitWord
  generalize s.takeWhile (· != Byte.space) = word, s.dropWhile (· != Byte.space) = after,
    s.indexOf? Byte.space = found at hcut
  cases hcut with
  | whole h => rfl
  | @first word h rest =>
    have hrest := (At.of_append word (Byte.space :: rest)).tail
    show (Bytes.part _ 0 word.length >>= _) = _
    rw [At.part_append]
    show (Bytes.partFrom _ (word.length + 1) >>= _) = _
    rw [hrest.partFrom_eq]
    rfl

/-- The non-empty pieces from `start` on between occurrences of `delimiter`. -/
def fieldsFrom (s : Bytes) (delimiter : UInt8) (start : Nat) : Except Trap (List Bytes) :=
  if _h : start < s.length then do
    let stop := (s.indexOfFrom? delimiter start).getD s.length
    let piece ← s.part start stop
    let more ← fieldsFrom s delimiter (stop + 1)
    return if piece.isEmpty then more else piece :: more
  else .ok []
termination_by s.length - start
decreasing_by
  have hle : start ≤ (s.indexOfFrom? delimiter start).getD s.length := by
    rcases hfind : s.indexOfFrom? delimiter start with _ | place
    · exact Nat.le_of_lt _h
    · exact le_of_find? hfind
  omega

theorem fieldsFrom_of_le {s : Bytes} {start : Nat} (h : s.length ≤ start) (delimiter : UInt8) :
    s.fieldsFrom delimiter start = .ok [] := by
  rw [fieldsFrom, dif_neg (Nat.not_lt.2 h)]

theorem fieldsFrom_of_lt {s piece : Bytes} {start stop : Nat} {delimiter : UInt8}
    (h : start < s.length) (hstop : (s.indexOfFrom? delimiter start).getD s.length = stop)
    (hpiece : s.part start stop = .ok piece) :
    s.fieldsFrom delimiter start = s.fieldsFrom delimiter (stop + 1) >>= fun more =>
      .ok (if piece.isEmpty then more else piece :: more) := by
  rw [fieldsFrom, dif_pos h, hstop]
  show (s.part start stop >>= _) = _
  rw [hpiece]
  rfl

/-- Fields are found from a place on as they are in the end that begins there. -/
theorem fieldsFrom_eq {s t : Bytes} {start : Nat} (h : At s start t) (delimiter : UInt8) :
    s.fieldsFrom delimiter start = .ok (t.fields delimiter) := by
  -- by the length of what is left, piece by piece
  induction hn : t.length using Nat.strong_induction_on generalizing start t with
  | _ n ih =>
  have hlength := h.length_eq
  rcases exists_cut (· == delimiter) t with ht | ⟨w, c, u, rfl, hw, hc⟩
  · have hnot : delimiter ∉ t := fun hmem => by simpa using ht delimiter hmem
    rw [fields_of_notMem hnot]
    by_cases hempty : t.isEmpty
    · have hnil := List.isEmpty_iff_length_eq_zero.1 hempty
      rw [fieldsFrom_of_le (by omega), if_pos hempty]
    · have hpos := mt List.isEmpty_iff_length_eq_zero.2 hempty
      have hstop : (s.indexOfFrom? delimiter start).getD s.length = s.length := by
        rw [indexOfFrom?, h.find?_eq_none ht]
        rfl
      rw [fieldsFrom_of_lt (by omega) hstop h.partFrom_eq, fieldsFrom_of_le (Nat.le_succ _),
        if_neg hempty]
      show Except.ok (if t.isEmpty then _ else _) = _
      rw [if_neg hempty]
  · obtain rfl : c = delimiter := by simpa using hc
    have hnot : c ∉ w := fun hmem => by simpa using hw c hmem
    have hstop : (s.indexOfFrom? c start).getD s.length = start + w.length := by
      rw [indexOfFrom?, h.find?_eq_some hw hc]
      rfl
    rw [List.length_append, List.length_cons] at hlength hn
    rw [fieldsFrom_of_lt (by omega) hstop h.part_eq, ih _ (by omega) h.append.tail rfl,
      fields_append hnot]
    rfl

end Bytes

namespace Pop3

/-! ## Lines -/

/-- The content of the first line, and the place behind its line end. -/
def contentAt (s : Bytes) : Except Trap (Except Fault (Bytes × Nat)) := do
  match ← Line.endAt s with
  | .error fault => return .error fault
  | .ok (cr, consumed) => return .ok (← s.part 0 cr, consumed)

theorem contentAt_eq (s : Bytes) : contentAt s = .ok ((Line.first s).map s.placed) := by
  unfold contentAt
  rw [Line.endAt_eq]
  rcases hfirst : Line.first s with fault | ⟨content, rest⟩
  · rfl
  · obtain ⟨-, rfl⟩ := Line.first_eq_ok_iff.1 hfirst
    show (Bytes.part _ 0 content.length >>= _) = _
    rw [At.part_append]
    rfl

namespace Command

/-- The arguments of a verb that follow it on its line. -/
def argsAt (verb rest : Bytes) : Except Trap (List Bytes) :=
  if Command.isVerb { verb } "PASS" then .ok (if rest.isEmpty then [] else [rest])
  else rest.fieldsFrom Byte.space 0

/-- Read a command. -/
def parseAt (s : Bytes) : Except Trap (Except Malformed (Placed Command)) := do
  match ← contentAt s with
  | .error fault => return .error { fault }
  | .ok (line, consumed) =>
    let (verb, after) ← line.splitWordAt
    if verb.isEmpty then return .error { fault := .emptyCommand }
    else return .ok (.complete { verb, args := ← argsAt verb after } consumed)

theorem argsAt_eq (verb rest : Bytes) : argsAt verb rest = .ok (argsOf verb rest) := by
  unfold argsAt argsOf
  rw [Bytes.fieldsFrom_eq (At.start rest)]
  split <;> rfl

theorem parse_of_first {s line rest : Bytes} (h : Line.first s = .ok (line, rest)) :
    parse s = if line.splitWord.1.isEmpty then .error { fault := .emptyCommand }
      else .ok (.complete { verb := line.splitWord.1
                            args := argsOf line.splitWord.1 line.splitWord.2 } rest) := by
  rw [parse, h]

/-- Commands are read by places as they are read from the front. -/
theorem parseAt_eq (s : Bytes) : parseAt s = .ok ((parse s).map (Parsed.placed s)) := by
  unfold parseAt
  rw [contentAt_eq]
  rcases hfirst : Line.first s with fault | ⟨line, rest⟩
  · rw [parse, hfirst]
    rfl
  · rw [parse_of_first hfirst]
    show (line.splitWordAt >>= _) = _
    rw [Bytes.splitWordAt_eq]
    generalize line.splitWord = words
    show (if words.1.isEmpty then _ else _) = _
    by_cases hempty : words.1.isEmpty
    · rw [if_pos hempty, if_pos hempty]
      rfl
    · rw [if_neg hempty, if_neg hempty, argsAt_eq]
      rfl

/-- How servers read commands by places. -/
def places (config : Config) : (grammar config).Places where
  parseAt _ s := do return ((), ← parseAt s)
  maxLiteral := none

theorem reads_places (config : Config) : (places config).Reads := by
  intro g s
  apply Comes.of_eq
  show (parseAt s >>= _) = _
  rw [parseAt_eq]
  rfl

end Command

namespace Response

/-- What follows a code, without one space at its front. -/
def behindCode (after : Bytes) : Except Trap Bytes :=
  if after.head? = some Byte.space then after.partFrom 1 else .ok after

/-- Read what follows the indicator of a status. -/
def textAt (s : Bytes) : Except Trap (Except Fault StatusText) :=
  if s.head? = some Byte.openBracket then
    match s.indexOf? Byte.closeBracket with
    | none => .ok (.error .unclosedCode)
    | some close => do
      let name ← s.part 1 close
      if name.isEmpty then return .error .emptyCode
      else
        let text ← behindCode (← s.partFrom (close + 1))
        return .ok { code := some (ResponseCode.ofName (Utf8.readLossy name)), text }
  else .ok (.ok { text := s })

/-- The line of a body that was sent as `line`. -/
def unstuffAt (line : Bytes) : Except Trap Bytes :=
  if line.head? = some Byte.dot then line.partFrom 1 else .ok line

/-- Read a line that is neither in a body nor a lone dot. -/
def statusAt (expectsBody : Bool) (content : Bytes) :
    Except Trap (Reading × Except Fault Response) := do
  let (word, rest) ← content.splitWordAt
  match Indicator.ofWord? word with
  | some indicator =>
    match ← textAt rest with
    | .error fault => return ({}, .error fault)
    | .ok text =>
      return ({ inBody := expectsBody && indicator = .positive }, .ok (status indicator text))
  | none =>
    if word = [Byte.plus] then return ({}, .ok (continuation rest))
    else return ({}, .error .invalidIndicator)

/-- Read a line. -/
def lineAt (r : Reading) (content : Bytes) : Except Trap (Reading × Except Fault Response) :=
  if content = [Byte.dot] then .ok ({ r with inBody := false }, .ok termination)
  else if r.inBody then do return (r, .ok (line (← unstuffAt content)))
  else statusAt r.expectsBody content

/-- Read a response. -/
def parseAt (r : Reading) (s : Bytes) :
    Except Trap (Reading × Except Malformed (Placed Response)) := do
  match ← contentAt s with
  | .error fault => return (r, .error { fault })
  | .ok (content, consumed) =>
    match ← lineAt r content with
    | (r, .error fault) => return (r, .error { fault })
    | (r, .ok unit) => return (r, .ok (.complete unit consumed))

theorem behindCode_eq (after : Bytes) :
    behindCode after = .ok (match after with
      | Byte.space :: text => text
      | text => text) := by
  unfold behindCode
  split
  · next hspace =>
    obtain ⟨text, rfl⟩ := List.head?_eq_some_iff.1 hspace
    exact (At.start (Byte.space :: text)).tail.partFrom_eq
  · next hspace =>
    split
    · exact absurd rfl hspace
    · rfl

/-- A code in front is cut off by the places of its brackets as it is from the front. -/
theorem textAt_eq (s : Bytes) : textAt s = .ok (parseText s) := by
  unfold parseText
  split
  · next inner =>
    have hcut := Bytes.cut Byte.closeBracket inner
    have hopen : (Byte.openBracket :: inner).head? = some Byte.openBracket := rfl
    show textAt (Byte.openBracket :: inner) = _
    rw [textAt, if_pos hopen]
    generalize inner.takeWhile (· != Byte.closeBracket) = name,
      inner.dropWhile (· != Byte.closeBracket) = after,
      Bytes.indexOf? inner Byte.closeBracket = found at hcut
    cases hcut with
    | whole h =>
      rw [Bytes.indexOf?_eq_none (Bytes.closeBracket_notMem_cons h)]
    | @first name h after =>
      have hat := (At.start (Byte.openBracket :: (name ++ Byte.closeBracket :: after))).tail
      have hname := hat.part_eq
      have hafter := hat.append.tail.partFrom_eq
      rw [Nat.zero_add, Nat.add_comm 1] at hname hafter
      have hfound : Bytes.indexOf? (Byte.openBracket :: (name ++ Byte.closeBracket :: after))
          Byte.closeBracket = some (name.length + 1) :=
        Bytes.indexOf?_append (Bytes.closeBracket_notMem_cons h) after
      rw [hfound]
      show (Bytes.part _ 1 (name.length + 1) >>= _) = _
      rw [hname]
      show (if name.isEmpty then _ else _) = Except.ok (if name.isEmpty then _ else _)
      by_cases hempty : name.isEmpty
      · rw [if_pos hempty, if_pos hempty]
        rfl
      · rw [if_neg hempty, if_neg hempty, hafter]
        show (behindCode after >>= _) = _
        rw [behindCode_eq]
        rfl
  · next hopen =>
    have hhead : s.head? ≠ some Byte.openBracket := by
      intro hhead
      obtain ⟨inner, rfl⟩ := List.head?_eq_some_iff.1 hhead
      exact hopen inner rfl
    exact if_neg hhead

theorem unstuffAt_eq (line : Bytes) : unstuffAt line = .ok (unstuff line) := by
  unfold unstuffAt unstuff
  split
  · next hdot =>
    obtain ⟨rest, rfl⟩ := List.head?_eq_some_iff.1 hdot
    exact (At.start (Byte.dot :: rest)).tail.partFrom_eq
  · next hdot =>
    split
    · exact absurd rfl hdot
    · rfl

theorem statusAt_eq (expectsBody : Bool) (content : Bytes) :
    statusAt expectsBody content = .ok (parseStatus expectsBody content) := by
  unfold statusAt parseStatus
  rw [Bytes.splitWordAt_eq]
  obtain ⟨word, rest⟩ := content.splitWord
  show (match Indicator.ofWord? word with | some indicator => _ | none => _)
    = Except.ok (match Indicator.ofWord? word with | some indicator => _ | none => _)
  rcases Indicator.ofWord? word with _ | indicator
  · show (if word = [Byte.plus] then _ else _) = Except.ok (if word = [Byte.plus] then _ else _)
    split <;> rfl
  · show (textAt rest >>= _) = _
    rw [textAt_eq]
    rcases parseText rest with fault | text <;> rfl

theorem lineAt_eq (r : Reading) (content : Bytes) :
    lineAt r content = .ok (parseLine r content) := by
  unfold lineAt parseLine
  rw [unstuffAt_eq, statusAt_eq]
  split
  · rfl
  · split <;> rfl

/-- Responses are read by places as they are read from the front. -/
theorem parseAt_eq (r : Reading) (s : Bytes) :
    parseAt r s = .ok (Grammar.placed s (parse r s)) := by
  unfold parseAt parse
  rw [contentAt_eq]
  rcases Line.first s with fault | ⟨content, rest⟩
  · rfl
  · show (lineAt r content >>= _) = _
    rw [lineAt_eq]
    show _ = Except.ok (Grammar.placed s (match parseLine r content with
      | (r, .error fault) => _ | (r, .ok unit) => _))
    rcases parseLine r content with ⟨r, fault | unit⟩ <;> rfl

/-- How clients read responses by places. -/
def places (config : Config) : (grammar config).Places where
  parseAt := parseAt
  maxLiteral := none

theorem reads_places (config : Config) : (places config).Reads :=
  fun r s => .of_eq (parseAt_eq r s)

end Response

end Pop3

end MailProtocol
