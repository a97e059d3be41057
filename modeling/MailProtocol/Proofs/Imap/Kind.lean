import MailProtocol.Imap.Response.Parser
import MailProtocol.Proofs.Bytes.Words

/-!
# The first words of a response

A response is a request to continue, or it begins with a tag and a space (`kind_cases`). The word
after the tag tells a status from data (`afterTag`). A request to continue and a status end with
their line (`of_parseContinuation`, `of_parseStatus`), and data with the logical line of their
items.
-/

namespace MailProtocol.Imap.Response

/-- What a response is by what follows its tag and a space. -/
def afterTag (tag rest : Bytes) : Kind :=
  match Condition.ofWord? (Line.word rest) with
  | some condition => .status tag condition (Line.afterWord rest)
  | none =>
    if tag = untaggedTag then .data rest
    else .wrong { fault := .invalidCondition, tag := some tag }

/-- A tag that is not taken for a request to continue. -/
def IsTag (tag : Bytes) : Prop := Line.IsWord tag ∧ tag.head? ≠ some Byte.plus

theorem isTag_untaggedTag : IsTag untaggedTag := by
  refine ⟨⟨by decide, ?_⟩, by decide⟩
  intro b hb
  obtain rfl := List.mem_singleton.1 hb
  rfl

/-- Other strings than requests to continue. -/
theorem kind_of_head? {s : Bytes} (h : s.head? ≠ some Byte.plus) :
    kind s = if (Line.word s).isEmpty then .wrong { fault := .missingTag }
      else match Line.afterWord s with
        | Byte.space :: rest => afterTag (Line.word s) rest
        | _ => .wrong { fault := .missingResponse, tag := some (Line.word s) } := by
  unfold kind
  split
  · exact absurd rfl h
  · rfl

theorem kind_tag {tag : Bytes} (h : IsTag tag) (rest : Bytes) :
    kind (tag ++ Byte.space :: rest) = afterTag tag rest := by
  obtain ⟨hword, hafter⟩ := Line.word_append h.1.2 (b := Byte.space) rfl rest
  have hhead : (tag ++ Byte.space :: rest).head? ≠ some Byte.plus := by
    rw [List.head?_append_of_ne_nil _ h.1.1]
    exact h.2
  rw [kind_of_head? hhead, hword, hafter, if_neg (by simpa using h.1.1)]
  rfl

/-- The forms of a response. -/
theorem kind_cases (s : Bytes) :
    (∃ rest, s = Byte.plus :: rest)
      ∨ (∃ tag rest, IsTag tag ∧ s = tag ++ Byte.space :: rest)
      ∨ ∃ report, kind s = .wrong report := by
  by_cases hhead : s.head? = some Byte.plus
  · left
    obtain ⟨rest, rfl⟩ := List.head?_eq_some_iff.1 hhead
    exact ⟨rest, rfl⟩
  · right
    have hs := Line.word_append_afterWord s
    by_cases hempty : (Line.word s).isEmpty
    · right
      exact ⟨_, by rw [kind_of_head? hhead, if_pos hempty]⟩
    · have hword := Line.isWord_word (by simpa using hempty)
      rw [kind_of_head? hhead, if_neg hempty]
      split
      · next rest hafter =>
        left
        refine ⟨Line.word s, rest, ⟨hword, ?_⟩, ?_⟩
        · rw [← List.head?_append_of_ne_nil _ hword.1, hs]
          exact hhead
        · exact (hafter ▸ hs).symm
      · right
        exact ⟨_, rfl⟩

/-! ## What follows the tag -/

theorem afterTag_of_condition {condition : Condition} {word s : Bytes} (tag : Bytes)
    (hword : ∀ b ∈ word, Line.endsWord b = false)
    (hs : ∀ b, s.head? = some b → Line.endsWord b = true)
    (hcondition : Condition.ofWord? word = some condition) :
    afterTag tag (word ++ s) = .status tag condition s := by
  obtain ⟨hcut, hafter⟩ := Line.word_append_of_head? hword hs
  simp only [afterTag, hcut, hafter, hcondition]

theorem afterTag_of_data {s : Bytes} (h : Condition.ofWord? (Line.word s) = none) :
    afterTag untaggedTag s = .data s := by
  simp only [afterTag, h, if_true]

/-- Behind a tag there is a condition, and then it is a status, or the tag is that of data. -/
theorem afterTag_cases (tag s : Bytes) :
    (∃ condition, Condition.ofWord? (Line.word s) = some condition)
      ∨ (tag = untaggedTag ∧ Condition.ofWord? (Line.word s) = none)
      ∨ ∃ report, afterTag tag s = .wrong report := by
  rcases hcondition : Condition.ofWord? (Line.word s) with _ | condition
  · right
    by_cases htag : tag = untaggedTag
    · exact .inl ⟨htag, rfl⟩
    · right
      refine ⟨{ fault := .invalidCondition, tag := some tag }, ?_⟩
      simp only [afterTag, hcondition, if_neg htag]
  · left
    exact ⟨condition, rfl⟩

/-! ## Reading by the kind -/

variable {maxLiteral : Nat} {s rest : Bytes}

theorem snd_parse_of_status {tag : Bytes} {condition : Condition}
    (h : kind s = .status tag condition rest) :
    (parse maxLiteral s).2 = parseStatus maxLiteral tag condition rest := by
  rw [parse, h]

theorem snd_parse_of_data (h : kind s = .data rest) :
    (parse maxLiteral s).2 = parseData maxLiteral rest := by
  simp only [parse, h]
  split
  · next hdata => rw [hdata]
  · rfl

theorem snd_parse_of_wrong {report : Malformed} (h : kind s = .wrong report) :
    (parse maxLiteral s).2 = .error report := by
  rw [parse, h]

/-- A response whose items have been read. -/
def ofScan : Except Fault Scan → Except Malformed (Parsed Response)
  | .error fault => .error { fault }
  | .ok (.incomplete needs) => .ok (.incomplete needs)
  | .ok (.complete items _ rest) => .ok (.complete (.data items) rest)

theorem parseData_eq (s : Bytes) : parseData maxLiteral s = ofScan (Item.parse maxLiteral s) := by
  unfold parseData
  split <;> (next h => rw [h, ofScan])

/-- The condition and the text of a status, under its tag. -/
def ofStatus (tag : Bytes) (status : Status) : Response :=
  if tag = untaggedTag then .untagged status else .tagged tag status

theorem parseContinuation_line {content : Bytes} (h : Byte.lf ∉ content) (t : Bytes) :
    parseContinuation (content ++ (Bytes.crlf ++ t))
      = .ok (.complete (.continuation (dropSpace content)) t) := by
  rw [parseContinuation, Line.first_eq_ok_iff.2 ⟨h, rfl⟩]

theorem parseStatus_line {content : Bytes} (h : Byte.lf ∉ content) {text : StatusText}
    (htext : StatusText.parse maxLiteral content = .ok text) (tag : Bytes) (condition : Condition)
    (t : Bytes) :
    parseStatus maxLiteral tag condition (content ++ (Bytes.crlf ++ t))
      = .ok (.complete (ofStatus tag { condition, text }) t) := by
  rw [parseStatus, Line.first_eq_ok_iff.2 ⟨h, rfl⟩]
  simp only [htext]
  rfl

/-- A request to continue that is read is one line. -/
theorem of_parseContinuation {p : Parsed Response} (h : parseContinuation s = .ok p) :
    ∃ content rest, Byte.lf ∉ content ∧ s = content ++ (Bytes.crlf ++ rest)
      ∧ p = .complete (.continuation (dropSpace content)) rest := by
  unfold parseContinuation at h
  split at h
  · cases h
  · next content rest hfirst =>
    obtain ⟨hlf, rfl⟩ := Line.first_eq_ok_iff.1 hfirst
    exact ⟨content, rest, hlf, rfl, (Except.ok.inj h).symm⟩

/-- A status that is read is one line. -/
theorem of_parseStatus {tag : Bytes} {condition : Condition} {p : Parsed Response}
    (h : parseStatus maxLiteral tag condition s = .ok p) :
    ∃ content rest text, Byte.lf ∉ content ∧ s = content ++ (Bytes.crlf ++ rest)
      ∧ StatusText.parse maxLiteral content = .ok text
      ∧ p = .complete (ofStatus tag { condition, text }) rest := by
  unfold parseStatus at h
  split at h
  · cases h
  · next content rest hfirst =>
    obtain ⟨hlf, rfl⟩ := Line.first_eq_ok_iff.1 hfirst
    split at h
    · cases h
    · next text htext => exact ⟨content, rest, text, hlf, rfl, htext, (Except.ok.inj h).symm⟩

end MailProtocol.Imap.Response
