import MailProtocol.Config.Basic
import MailProtocol.Imap.Item.Parser
import MailProtocol.Imap.Response.Basic
import MailProtocol.Line

/-!
# Reading responses

A client tells a response's kind from its first words. Only data responses hold literals, so the
grammar keeps in mind whether the unit at hand is one: what looks like a literal marker at the end
of a status line announces nothing.
-/

namespace MailProtocol.Imap

/-- The string without one space at its front. -/
def dropSpace : Bytes → Bytes
  | Byte.space :: rest => rest
  | s => s

/-- Read the arguments of a code. They end with the code and hold no literals. -/
def Code.parseArgs (maxLiteral : Nat) (s : Bytes) : Except Fault (List Item) :=
  match Item.parse maxLiteral (s ++ Bytes.crlf) with
  | .error fault => .error fault
  | .ok (.incomplete _) => .error .literalInCode
  | .ok (.complete items _ _) => .ok items

/-- Read what stands between the brackets of a code. -/
def Code.parse (maxLiteral : Nat) (s : Bytes) : Except Fault Code :=
  let name := s.takeWhile (· != Byte.space)
  let token := ResponseCode.ofName (Utf8.readLossy name)
  if name.isEmpty then .error .emptyCode
  else match s.dropWhile (· != Byte.space) with
    | [] => .ok { token }
    | _ :: args => do return { token, args := ← parseArgs maxLiteral args }

/-- Read what follows the condition of a status on its line. -/
def StatusText.parse (maxLiteral : Nat) (s : Bytes) : Except Fault StatusText :=
  match dropSpace s with
  | Byte.openBracket :: inner =>
    match inner.dropWhile (· != Byte.closeBracket) with
    | [] => .error .unclosedCode
    | _ :: after => do
      let code ← Code.parse maxLiteral (inner.takeWhile (· != Byte.closeBracket))
      return { code := some code, text := dropSpace after }
  | text => .ok { text }

namespace Response

/-- The tag of untagged responses. -/
def untaggedTag : Bytes := [Byte.star]

/-- Read what follows the plus sign of a request to continue. -/
def parseContinuation (s : Bytes) : Except Malformed (Parsed Response) :=
  match Line.first s with
  | .error fault => .error { fault }
  | .ok (content, rest) => .ok (.complete (.continuation (dropSpace content)) rest)

/-- Read what follows the condition of a status. -/
def parseStatus (maxLiteral : Nat) (tag : Bytes) (condition : Condition) (s : Bytes) :
    Except Malformed (Parsed Response) :=
  match Line.first s with
  | .error fault => .error { fault }
  | .ok (content, rest) =>
    match StatusText.parse maxLiteral content with
    | .error fault => .error { fault, tag := some tag }
    | .ok text =>
      let status := { condition, text }
      .ok (.complete (if tag = untaggedTag then .untagged status else .tagged tag status) rest)

/-- Read what follows the mark of a data response. -/
def parseData (maxLiteral : Nat) (s : Bytes) : Except Malformed (Parsed Response) :=
  match Item.parse maxLiteral s with
  | .error fault => .error { fault }
  | .ok (.incomplete needs) => .ok (.incomplete needs)
  | .ok (.complete items _ rest) => .ok (.complete (.data items) rest)

/-- What a response is, as its first words show. -/
inductive Kind where
  | continuation (rest : Bytes)
  | data (rest : Bytes)
  | status (tag : Bytes) (condition : Condition) (rest : Bytes)
  | wrong (report : Malformed)

/-- Tell the kind of a response. -/
def kind (s : Bytes) : Kind :=
  match s with
  | Byte.plus :: rest => .continuation rest
  | _ =>
    let tag := Line.word s
    if tag.isEmpty then .wrong { fault := .missingTag }
    else match Line.afterWord s with
      | Byte.space :: rest =>
        match Condition.ofWord? (Line.word rest) with
        | some condition => .status tag condition (Line.afterWord rest)
        | none =>
          if tag = untaggedTag then .data rest
          else .wrong { fault := .invalidCondition, tag := some tag }
      | _ => .wrong { fault := .missingResponse, tag := some tag }

/-- Read a response, and say whether it is a data response that could not be finished. -/
def parse (maxLiteral : Nat) (s : Bytes) : Bool × Except Malformed (Parsed Response) :=
  match kind s with
  | .continuation rest => (false, parseContinuation rest)
  | .status tag condition rest => (false, parseStatus maxLiteral tag condition rest)
  | .wrong report => (false, .error report)
  | .data rest =>
    match parseData maxLiteral rest with
    | .ok (.complete unit rest) => (false, .ok (.complete unit rest))
    | unfinished => (true, unfinished)

/-- How clients read responses. The state says whether a data response is being read. -/
def grammar (config : Config) : Grammar Bool Response where
  parse _ s := parse config.limits.maxLiteralLength s
  maxLineLength := config.limits.maxLineLength
  literalToDiscard inData line :=
    if inData then (LiteralMarker.atEnd? line).map (·.length) else none

/-! ## What is left is the end of what there was -/

/-- What follows the words that tell the kind. -/
def Kind.rest? : Kind → Option Bytes
  | .continuation rest | .data rest | .status _ _ rest => some rest
  | .wrong _ => none

theorem suffix_of_kind {s rest : Bytes} (h : (kind s).rest? = some rest) : rest <:+ s := by
  unfold kind at h
  split at h
  · simp only [Kind.rest?, Option.some.injEq] at h
    exact h ▸ List.suffix_cons _ _
  · simp only at h
    split at h
    · simp [Kind.rest?] at h
    · split at h
      · next r hw =>
        have hs := Line.suffix_of_afterWord hw
        split at h
        · simp only [Kind.rest?, Option.some.injEq] at h
          exact h ▸ (List.dropWhile_suffix _).trans hs
        · split at h
          · simp only [Kind.rest?, Option.some.injEq] at h
            exact h ▸ hs
          · simp [Kind.rest?] at h
      · simp [Kind.rest?] at h

theorem suffix_of_parseContinuation {s rest : Bytes} {unit : Response}
    (h : parseContinuation s = .ok (.complete unit rest)) :
    rest <:+ s ∧ rest.length < s.length := by
  unfold parseContinuation at h
  split at h
  · simp at h
  · next hl =>
    simp only [Except.ok.injEq, Parsed.complete.injEq] at h
    exact h.2 ▸ Line.suffix_of_first hl

theorem suffix_of_parseStatus {maxLiteral : Nat} {tag s rest : Bytes} {condition : Condition}
    {unit : Response} (h : parseStatus maxLiteral tag condition s = .ok (.complete unit rest)) :
    rest <:+ s ∧ rest.length < s.length := by
  unfold parseStatus at h
  split at h
  · simp at h
  · next hl =>
    split at h
    · simp at h
    · simp only [Except.ok.injEq, Parsed.complete.injEq] at h
      exact h.2 ▸ Line.suffix_of_first hl

theorem suffix_of_parseData {maxLiteral : Nat} {s rest : Bytes} {unit : Response}
    (h : parseData maxLiteral s = .ok (.complete unit rest)) :
    rest <:+ s ∧ rest.length < s.length := by
  unfold parseData at h
  split at h
  · simp at h
  · simp at h
  · next hp =>
    simp only [Except.ok.injEq, Parsed.complete.injEq] at h
    exact h.2 ▸ suffix_of_run hp

theorem suffix_of_parse {maxLiteral : Nat} {s rest : Bytes} {inData : Bool} {unit : Response}
    (h : parse maxLiteral s = (inData, .ok (.complete unit rest))) :
    rest <:+ s ∧ rest.length < s.length := by
  have proper {r : Bytes} (hk : (kind s).rest? = some r)
      (hr : rest <:+ r ∧ rest.length < r.length) :
      rest <:+ s ∧ rest.length < s.length := by
    have hs := suffix_of_kind hk
    exact ⟨hr.1.trans hs, Nat.lt_of_lt_of_le hr.2 hs.length_le⟩
  unfold parse at h
  split at h
  · next hk => exact proper (by rw [hk]; rfl) (suffix_of_parseContinuation (Prod.mk.inj h).2)
  · next hk => exact proper (by rw [hk]; rfl) (suffix_of_parseStatus (Prod.mk.inj h).2)
  · simp at h
  · next hk =>
    split at h
    · next hd =>
      simp only [Prod.mk.injEq, Except.ok.injEq, Parsed.complete.injEq] at h
      obtain ⟨-, -, rfl⟩ := h
      exact proper (by rw [hk]; rfl) (suffix_of_parseData hd)
    · next hne => exact absurd (Prod.mk.inj h).2 (hne _ _)

/-- Reading a response uses up at least one byte of the front and nothing else. -/
theorem lawful_grammar (config : Config) : (grammar config).Lawful where
  suffix h := (suffix_of_parse h).1
  length_lt h := (suffix_of_parse h).2

end Response

end MailProtocol.Imap
