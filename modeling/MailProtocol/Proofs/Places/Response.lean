import MailProtocol.Proofs.Imap.Kind
import MailProtocol.Proofs.Places.Item
import MailProtocol.Proofs.Places.Line

/-!
# Reading IMAP responses by places

A response is read by the places where its first words end and by those of its first line end, which
is looked for from the front of the fragment. The text of a status is what stands between the two,
and it is cut further at the brackets of its code. The reading comes to what `Response.parse` finds
(`Response.comes_parseAt`).

The arguments of a code are read out of a string of their own, which is never longer than the
fragment.
-/

namespace MailProtocol.Imap

variable {maxLiteral ix stop : Nat} {s t w : Bytes}

/-! ## Codes and texts -/

/-- The place behind one space, if it stands before `stop`. -/
def spaceAt (s : Bytes) (ix stop : Nat) : Except Trap Nat :=
  if ix < stop then do
    if (← s.byteAt ix) = Byte.space then return ix + 1 else return ix
  else .ok ix

theorem spaceAt_eq (h : Between s ix stop w) :
    ∃ place, spaceAt s ix stop = .ok place ∧ Between s place stop (dropSpace w) := by
  unfold spaceAt
  cases w with
  | nil => exact ⟨ix, if_neg (by simp [h.lt_iff]), h⟩
  | cons b w =>
    rw [if_pos (h.lt_iff.2 (by simp)), h.byteAt_eq]
    by_cases hb : b = Byte.space
    · subst hb
      exact ⟨ix + 1, rfl, h.tail⟩
    · refine ⟨ix, if_neg hb, ?_⟩
      unfold dropSpace
      split
      · next heq => exact absurd (List.cons.inj heq).1 hb
      · exact h

namespace Code

/-- Read the arguments of a code. -/
def argsAt (maxLiteral : Nat) (s : Bytes) : Except Trap (Except Fault (List Item)) := do
  match ← Item.parseAt maxLiteral (s ++ Bytes.crlf) 0 with
  | .error fault => return .error fault
  | .ok (.incomplete _) => return .error .literalInCode
  | .ok (.complete items _ _) => return .ok items

/-- Read what stands between the brackets of a code. -/
def parseAt (maxLiteral : Nat) (s : Bytes) : Except Trap (Except Fault Code) :=
  let nameEnd := (s.indexOf? Byte.space).getD s.length
  if nameEnd = 0 then .ok (.error .emptyCode)
  else do
    let token := ResponseCode.ofName (Utf8.readLossy (← s.part 0 nameEnd))
    if nameEnd < s.length then
      match ← argsAt maxLiteral (← s.partFrom (nameEnd + 1)) with
      | .error fault => return .error fault
      | .ok args => return .ok { token, args }
    else return .ok { token }

theorem comes_argsAt (maxLiteral : Nat) (s : Bytes) :
    Comes (s.length + 2 + maxLiteral < UInt64.size) (argsAt maxLiteral s)
      (parseArgs maxLiteral s) := by
  have hlength : (s ++ Bytes.crlf).length = s.length + 2 := List.length_append
  rw [← hlength]
  unfold argsAt parseArgs
  refine (Item.comes_parseAt (At.start (s ++ Bytes.crlf))).bind ?_
  rcases Item.parse maxLiteral (s ++ Bytes.crlf) with fault | ⟨args, waits, rest⟩ | needs <;>
    exact .pure _

/-- The arguments with a line end of their own are no longer than the code with its name. -/
theorem comes_parseAt (maxLiteral : Nat) (s : Bytes) :
    Comes (s.length + maxLiteral < UInt64.size) (parseAt maxLiteral s) (parse maxLiteral s) := by
  have hcut := Bytes.cut Byte.space s
  have hempty (name : Bytes) : name.length = 0 ↔ name.isEmpty := by
    rw [List.isEmpty_iff_length_eq_zero]
  unfold parseAt parse
  simp only
  generalize s.takeWhile (· != Byte.space) = name, s.dropWhile (· != Byte.space) = after,
    s.indexOf? Byte.space = found at hcut
  cases hcut with
  | whole h =>
    show Comes _ (if s.length = 0 then _ else _) (if s.isEmpty then _ else _)
    by_cases hs : s.isEmpty
    · rw [if_pos ((hempty s).2 hs), if_pos hs]
      exact .pure _
    · have hpart : s.part 0 s.length = .ok s := (At.start s).partFrom_eq
      rw [if_neg (mt (hempty s).1 hs), if_neg hs]
      show Comes _ (s.part 0 s.length >>= _) _
      rw [hpart]
      show Comes _ (if s.length < s.length then _ else _) _
      rw [if_neg (Nat.lt_irrefl _)]
      exact .pure _
  | @first name h args =>
    have hargs : At (name ++ Byte.space :: args) (name.length + 1) args :=
      (At.of_append name (Byte.space :: args)).tail
    -- a name and the space behind it leave room for the line end that the arguments are given
    have hlength := hargs.length_eq
    show Comes _ (if name.length = 0 then _ else _) (if name.isEmpty then _ else _)
    by_cases hname : name.isEmpty
    · rw [if_pos ((hempty name).2 hname), if_pos hname]
      exact .pure _
    · have hpos := mt (hempty name).1 hname
      rw [if_neg hpos, if_neg hname]
      show Comes _ (Bytes.part _ 0 name.length >>= _) _
      rw [At.part_append]
      show Comes _ (if name.length < (name ++ Byte.space :: args).length then _ else _) _
      rw [if_pos (by omega)]
      show Comes _ (Bytes.partFrom _ (name.length + 1) >>= _) _
      rw [hargs.partFrom_eq]
      refine ((comes_argsAt maxLiteral args).mono (by omega)).bind ?_
      show Comes _ _ (parseArgs maxLiteral args >>= _)
      rcases parseArgs maxLiteral args with fault | args <;> exact .pure _

end Code

namespace StatusText

/-- Read a code whose opening bracket stands at `ix`: the code, and the place behind its closing
bracket. -/
def codeAt (maxLiteral : Nat) (s : Bytes) (ix stop : Nat) :
    Except Trap (Except Fault (Code × Nat)) := do
  match (← s.part ix stop).indexOf? Byte.closeBracket with
  | none => return .error .unclosedCode
  | some length =>
    let close := ix + length
    match ← Code.parseAt maxLiteral (← s.part (ix + 1) close) with
    | .error fault => return .error fault
    | .ok code => return .ok (code, close + 1)

/-- Whether a code begins at a place before `stop`. -/
def codeBeginsAt (s : Bytes) (ix stop : Nat) : Except Trap Bool :=
  if ix < stop then return (← s.byteAt ix) == Byte.openBracket else .ok false

/-- Read what stands between two places as the text of a status. -/
def parseAt (maxLiteral : Nat) (s : Bytes) (start stop : Nat) :
    Except Trap (Except Fault StatusText) := do
  let ix ← spaceAt s start stop
  if ← codeBeginsAt s ix stop then
    match ← codeAt maxLiteral s ix stop with
    | .error fault => return .error fault
    | .ok (code, place) =>
      let text ← s.part (← spaceAt s place stop) stop
      return .ok { code := some code, text }
  else return .ok { text := ← s.part ix stop }

theorem codeBeginsAt_eq (h : Between s ix stop w) :
    codeBeginsAt s ix stop = .ok (w.head? == some Byte.openBracket) := by
  unfold codeBeginsAt
  cases w with
  | nil => exact if_neg (by simp [h.lt_iff])
  | cons b w =>
    rw [if_pos (h.lt_iff.2 (by simp)), h.byteAt_eq]
    rfl

/-- A code is not read beyond its line. -/
theorem codeAt_unclosed {inner : Bytes} (h : Between s ix stop (Byte.openBracket :: inner))
    (hclose : Byte.closeBracket ∉ inner) :
    codeAt maxLiteral s ix stop = .ok (.error .unclosedCode) := by
  unfold codeAt
  rw [h.part_eq]
  show (match Bytes.indexOf? (Byte.openBracket :: inner) Byte.closeBracket with
    | none => _ | some length => _) = _
  rw [Bytes.indexOf?_eq_none (Bytes.closeBracket_notMem_cons hclose)]
  rfl

theorem comes_codeAt {inner after : Bytes}
    (h : Between s ix stop (Byte.openBracket :: (inner ++ Byte.closeBracket :: after)))
    (hclose : Byte.closeBracket ∉ inner) :
    Comes (s.length + maxLiteral < UInt64.size) (codeAt maxLiteral s ix stop)
      ((Code.parse maxLiteral inner).map (·, ix + 1 + inner.length + 1)) := by
  have hinner := h.tail.front
  have hlength := hinner.stop_le
  have hfound : Bytes.indexOf? (Byte.openBracket :: (inner ++ Byte.closeBracket :: after))
      Byte.closeBracket = some (inner.length + 1) :=
    Bytes.indexOf?_append (Bytes.closeBracket_notMem_cons hclose) after
  -- the search begins at the opening bracket, and the code behind it
  have hplace : ix + (inner.length + 1) = ix + 1 + inner.length := by omega
  unfold codeAt
  rw [h.part_eq]
  show Comes _ (match Bytes.indexOf? (Byte.openBracket :: (inner ++ Byte.closeBracket :: after))
    Byte.closeBracket with | none => _ | some length => _) _
  rw [hfound]
  show Comes _ (s.part (ix + 1) (ix + (inner.length + 1)) >>= _) _
  rw [hplace, hinner.part_eq]
  refine ((Code.comes_parseAt maxLiteral inner).mono (by omega)).bind ?_
  rcases Code.parse maxLiteral inner with fault | code <;> exact .pure _

/-- The text of a status is read between two places as it is read by itself. -/
theorem comes_parseAt (h : Between s ix stop w) :
    Comes (s.length + maxLiteral < UInt64.size) (parseAt maxLiteral s ix stop)
      (parse maxLiteral w) := by
  obtain ⟨place, hplace, hbetween⟩ := spaceAt_eq h
  unfold parseAt parse
  rw [hplace]
  show Comes _ (codeBeginsAt s place stop >>= _) _
  rw [codeBeginsAt_eq hbetween]
  split
  · next inner hinner =>
    rw [hinner] at hbetween ⊢
    show Comes _ (codeAt maxLiteral s place stop >>= _) _
    have hcut := Bytes.cut Byte.closeBracket inner
    generalize inner.takeWhile (· != Byte.closeBracket) = name,
      inner.dropWhile (· != Byte.closeBracket) = after,
      Bytes.indexOf? inner Byte.closeBracket = found at hcut
    cases hcut with
    | whole hclose =>
      rw [codeAt_unclosed hbetween hclose]
      exact .pure _
    | first hclose after =>
      refine (comes_codeAt hbetween hclose).bind ?_
      show Comes _ _ (Code.parse maxLiteral name >>= _)
      rcases Code.parse maxLiteral name with fault | code
      · exact .pure _
      · obtain ⟨place', hplace', hafter⟩ := spaceAt_eq hbetween.tail.append.tail
        show Comes _ (spaceAt s (place + 1 + name.length + 1) stop >>= _) _
        rw [hplace']
        show Comes _ (s.part place' stop >>= _) _
        rw [hafter.part_eq]
        exact .pure _
  · next text hopen =>
    have hhead : ((dropSpace w).head? == some Byte.openBracket) = false := by
      rw [beq_eq_false_iff_ne]
      intro hhead
      obtain ⟨inner, hinner⟩ := List.head?_eq_some_iff.1 hhead
      exact hopen inner hinner
    rw [hhead]
    show Comes _ (s.part place stop >>= _) _
    rw [hbetween.part_eq]
    exact .pure _

end StatusText

/-! ## Responses -/

namespace Response

/-- Read a request to continue. -/
def continuationAt (s : Bytes) : Except Trap (Except Malformed (Placed Response)) := do
  match ← Line.endAt s with
  | .error fault => return .error { fault }
  | .ok (cr, consumed) =>
    let start := if s[1]? = some Byte.space then 2 else 1
    let text ← s.part (min start cr) cr
    return .ok (.complete (.continuation text) consumed)

/-- Read the rest of a status whose condition ends at `start`. -/
def statusAt (maxLiteral : Nat) (tag : Bytes) (condition : Condition) (s : Bytes) (start : Nat) :
    Except Trap (Except Malformed (Placed Response)) := do
  match ← Line.endAt s with
  | .error fault => return .error { fault }
  | .ok (cr, consumed) =>
    match ← StatusText.parseAt maxLiteral s start cr with
    | .error fault => return .error { fault, tag := some tag }
    | .ok text =>
      let status := { condition, text }
      return .ok (.complete (if tag = untaggedTag then .untagged status else .tagged tag status)
        consumed)

/-- Read the items of a data response, and say whether it could not be finished. -/
def dataAt (maxLiteral : Nat) (s : Bytes) (start : Nat) :
    Except Trap (Bool × Except Malformed (Placed Response)) := do
  match ← Item.parseAt maxLiteral s start with
  | .error fault => return (true, .error { fault })
  | .ok (.incomplete needs) => return (true, .ok (.incomplete needs))
  | .ok (.complete items _ place) => return (false, .ok (.complete (.data items) place))

/-- Read what follows the tag of a response and the space behind it. -/
def afterTagAt (maxLiteral : Nat) (tag s : Bytes) (start : Nat) :
    Except Trap (Bool × Except Malformed (Placed Response)) := do
  let stop := Line.wordEnd s start
  match Condition.ofWord? (← s.part start stop) with
  | some condition => return (false, ← statusAt maxLiteral tag condition s stop)
  | none =>
    if tag = untaggedTag then dataAt maxLiteral s start
    else return (false, .error { fault := .invalidCondition, tag := some tag })

/-- Read a response, and say whether it is a data response that could not be finished. -/
def parseAt (maxLiteral : Nat) (s : Bytes) :
    Except Trap (Bool × Except Malformed (Placed Response)) :=
  if s.head? = some Byte.plus then do return (false, ← continuationAt s)
  else
    let tagEnd := Line.wordEnd s 0
    if tagEnd = 0 then .ok (false, .error { fault := .missingTag })
    else do
      let tag ← s.part 0 tagEnd
      if s[tagEnd]? ≠ some Byte.space then
        return (false, .error { fault := .missingResponse, tag := some tag })
      else afterTagAt maxLiteral tag s (tagEnd + 1)

/-- The space in front of the text of a request to continue is never the last byte of its line. -/
theorem between_continuation {content rest : Bytes}
    (h : At s 1 (content ++ (Bytes.crlf ++ rest))) :
    Between s (min (if s[1]? = some Byte.space then 2 else 1) (content.length + 1))
      (content.length + 1) (dropSpace content) := by
  have hbetween : Between s 1 (content.length + 1) content :=
    ⟨Bytes.crlf ++ rest, h, Nat.add_comm _ _⟩
  cases content with
  | nil =>
    have hcr : s[1]? = some Byte.cr := h.get
    rw [hcr, if_neg (by decide)]
    exact hbetween
  | cons b content =>
    have hb : s[1]? = some b := h.get
    by_cases hspace : b = Byte.space
    · subst hspace
      rw [hb, if_pos rfl, Nat.min_eq_left (by rw [List.length_cons]; omega)]
      exact hbetween.tail
    · have hkeep : dropSpace (b :: content) = b :: content := by
        unfold dropSpace
        split
        · next heq => exact absurd (List.cons.inj heq).1 hspace
        · rfl
      rw [hb, if_neg (by simpa using hspace), Nat.min_eq_left (by omega), hkeep]
      exact hbetween

theorem continuationAt_eq (rest : Bytes) : continuationAt (Byte.plus :: rest)
    = .ok ((parseContinuation rest).map (Parsed.placed (Byte.plus :: rest))) := by
  have hlf : Byte.lf ∉ [Byte.plus] := by decide
  have hend := Line.endAt_append hlf (by decide) rest
  rw [List.singleton_append] at hend
  unfold continuationAt parseContinuation
  rw [hend]
  rcases hrest : Line.first rest with fault | ⟨content, after⟩
  · rfl
  · obtain ⟨-, rfl⟩ := Line.first_eq_ok_iff.1 hrest
    have hstart := At.start (Byte.plus :: (content ++ (Bytes.crlf ++ after)))
    show (Bytes.part _ (min _ (1 + content.length)) (1 + content.length) >>= _) = _
    rw [Nat.add_comm 1, (between_continuation hstart.tail).part_eq]
    rfl

theorem comes_dataAt (h : At s ix t) :
    Comes (s.length + maxLiteral < UInt64.size) (dataAt maxLiteral s ix)
      (Grammar.placed s (match parseData maxLiteral t with
        | .ok (.complete unit rest) => (false, .ok (.complete unit rest))
        | unfinished => (true, unfinished))) := by
  unfold dataAt parseData
  refine (Item.comes_parseAt h).bind ?_
  rcases Item.parse maxLiteral t with fault | ⟨items, waits, rest⟩ | needs <;> exact .pure _

/-- A line feed that ends the first line stands behind the words in front. -/
theorem comes_statusAt (maxLiteral : Nat) {front : Bytes} (hlf : Byte.lf ∉ front)
    (hcr : front.getLast? ≠ some Byte.cr) (tag : Bytes) (condition : Condition) (t : Bytes) :
    Comes ((front ++ t).length + maxLiteral < UInt64.size)
      (statusAt maxLiteral tag condition (front ++ t) front.length)
      ((parseStatus maxLiteral tag condition t).map (Parsed.placed (front ++ t))) := by
  unfold statusAt parseStatus
  rw [Line.endAt_append hlf hcr]
  rcases hfirst : Line.first t with fault | ⟨content, rest⟩
  · exact .pure _
  · obtain ⟨-, rfl⟩ := Line.first_eq_ok_iff.1 hfirst
    have hbetween : Between (front ++ (content ++ (Bytes.crlf ++ rest))) front.length
        (front.length + content.length) content := ⟨_, .of_append front _, rfl⟩
    refine (StatusText.comes_parseAt hbetween).bind ?_
    show Comes _ _ (Except.map _ (match StatusText.parse maxLiteral content with
      | .error fault => _ | .ok text => _))
    rcases StatusText.parse maxLiteral content with fault | text <;> exact .pure _

/-- A byte that ends a line is no part of a tag, a space or a word. -/
theorem notMem_words {tag word : Bytes} (htag : ∀ b ∈ tag, Line.endsWord b = false)
    (hword : ∀ b ∈ word, Line.endsWord b = false) {c : UInt8} (hc : Line.endsWord c = true)
    (hspace : c ≠ Byte.space) : c ∉ tag ++ Byte.space :: word := by
  rw [List.mem_append, List.mem_cons]
  rintro (hmem | rfl | hmem)
  · simp [htag c hmem] at hc
  · exact hspace rfl
  · simp [hword c hmem] at hc

theorem comes_afterTagAt {tag : Bytes} (htag : ∀ b ∈ tag, Line.endsWord b = false) (t : Bytes)
    (hs : s = tag ++ Byte.space :: t) (hkind : kind s = afterTag tag t) :
    Comes (s.length + maxLiteral < UInt64.size) (afterTagAt maxLiteral tag s (tag.length + 1))
      (Grammar.placed s (parse maxLiteral s)) := by
  have hat : At s (tag.length + 1) t := by
    rw [hs]
    exact (At.of_append tag (Byte.space :: t)).tail
  unfold afterTagAt parse
  simp only
  rw [Line.part_wordEnd hat, hkind, afterTag]
  show Comes _ (match Condition.ofWord? (Line.word t) with | some condition => _ | none => _) _
  rcases Condition.ofWord? (Line.word t) with _ | condition
  · show Comes _ (if tag = untaggedTag then _ else _) _
    by_cases huntagged : tag = untaggedTag
    · simp only [if_pos huntagged]
      exact comes_dataAt hat
    · simp only [if_neg huntagged]
      exact .pure _
  · -- no line feed stands in front of the text, and no carriage return that one could end
    have hword (b : UInt8) (hb : b ∈ Line.word t) : Line.endsWord b = false :=
      Line.endsWord_of_mem_word hb
    have hlf := notMem_words htag hword (c := Byte.lf) rfl (by decide)
    have hcr := notMem_words htag hword (c := Byte.cr) rfl (by decide)
    have hfront : s = (tag ++ Byte.space :: Line.word t) ++ Line.afterWord t := by
      rw [List.append_assoc, List.cons_append, Line.word_append_afterWord, hs]
    have hstop : Line.wordEnd s (tag.length + 1) = (tag ++ Byte.space :: Line.word t).length := by
      rw [Line.wordEnd_eq hat, List.length_append, List.length_cons]
      omega
    have hstatus := comes_statusAt maxLiteral hlf
      (fun hlast => hcr (List.mem_of_getLast? hlast)) tag condition (Line.afterWord t)
    rw [← hfront, ← hstop] at hstatus
    exact hstatus.bind (.pure _)

/-- Responses are read by places as they are read from the front. -/
theorem comes_parseAt (maxLiteral : Nat) (s : Bytes) :
    Comes (s.length + maxLiteral < UInt64.size) (parseAt maxLiteral s)
      (Grammar.placed s (parse maxLiteral s)) := by
  have hstart := At.start s
  have hafter := Line.at_wordEnd hstart
  unfold parseAt
  by_cases hplus : s.head? = some Byte.plus
  · obtain ⟨rest, rfl⟩ := List.head?_eq_some_iff.1 hplus
    rw [if_pos hplus, continuationAt_eq]
    exact .pure _
  · simp only [if_neg hplus, Line.part_wordEnd hstart]
    by_cases hempty : (Line.word s).isEmpty
    · have hkind := kind_of_head? hplus
      rw [if_pos hempty] at hkind
      rw [if_pos ((Line.wordEnd_eq_iff hstart).2 hempty), parse, hkind]
      exact .pure _
    · have hkind := kind_of_head? hplus
      rw [if_neg hempty] at hkind
      rw [if_neg (mt (Line.wordEnd_eq_iff hstart).1 hempty)]
      show Comes _ (if s[Line.wordEnd s 0]? ≠ some Byte.space then _ else _) _
      by_cases hspace : s[Line.wordEnd s 0]? = some Byte.space
      · obtain ⟨t, ht⟩ := hafter.get_eq_some_iff.1 hspace
        rw [ht] at hkind
        have hs : s = Line.word s ++ Byte.space :: t := by
          rw [← ht, Line.word_append_afterWord]
        rw [if_neg (not_not_intro hspace), Line.wordEnd_eq hstart, Nat.zero_add]
        exact comes_afterTagAt (fun _ => Line.endsWord_of_mem_word) t hs hkind
      · have hwrong : kind s = .wrong { fault := .missingResponse, tag := some (Line.word s) } := by
          rw [hkind]
          split
          · next t ht => exact absurd (hafter.get_eq_some_iff.2 ⟨t, ht⟩) hspace
          · rfl
        rw [if_pos hspace, parse, hwrong]
        exact .pure _

/-- How clients read responses by places. -/
def places (config : Config) : (grammar config).Places where
  parseAt _ s := parseAt config.limits.maxLiteralLength s
  maxLiteral := some config.limits.maxLiteralLength

theorem reads_places (config : Config) : (places config).Reads := fun _ s =>
  (comes_parseAt config.limits.maxLiteralLength s).mono fun h => h _ rfl

end Response

end MailProtocol.Imap
