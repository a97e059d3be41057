import MailProtocol.Pop3.Endpoint
import MailProtocol.Proofs.Bytes.Words
import MailProtocol.Proofs.Reception.LineLocal

/-!
# POP3 line by line

Every line is a unit of POP3 or is refused on its own, on the client's side and on the server's
(`frames_reports`). What a line is for a client depends on the lines before it only by what the
client keeps in mind, and a refused line does not change whether the client is inside of a body.
-/

namespace MailProtocol

namespace Pop3

namespace Response

theorem lineLocal_grammar (config : Config) : (grammar config).LineLocal where
  whole reading line hline := by
    show (∃ unit, (parse reading line).2 = _) ∨ ∃ report, (parse reading line).2 = _
    rcases Line.first_cases hline with ⟨content, -, hfirst⟩ | ⟨-, hfirst⟩
    · rw [parse, hfirst]
      simp only
      rcases parseLine reading content with ⟨reading', fault | unit⟩
      · exact .inr ⟨_, rfl⟩
      · exact .inl ⟨_, rfl⟩
    · rw [parse, hfirst]
      exact .inr ⟨_, rfl⟩
  skipsNothing _ _ := rfl

/-- A line that is refused is outside of a body, and begins none. -/
theorem inBody_of_parseStatus_error {expectsBody : Bool} {content : Bytes} {fault : Fault}
    (h : (parseStatus expectsBody content).2 = .error fault) :
    (parseStatus expectsBody content).1.inBody = false := by
  rw [parseStatus] at h ⊢
  simp only at h ⊢
  split
  · next indicator hword =>
    rw [hword] at h
    cases htext : parseText content.splitWord.2 with
    | error fault => rfl
    | ok text =>
      simp only [htext] at h
      cases h
  · split <;> rfl

theorem inBody_of_parseLine_error {reading : Reading} {content : Bytes} {fault : Fault}
    (h : (parseLine reading content).2 = .error fault) :
    (parseLine reading content).1.inBody = reading.inBody := by
  rw [parseLine] at h ⊢
  split at h
  · cases h
  · next hdot =>
    rw [if_neg hdot]
    cases hbody : reading.inBody with
    | true =>
      rw [hbody] at h
      cases h
    | false =>
      rw [hbody] at h
      exact inBody_of_parseStatus_error h

theorem inBody_of_parse_error {reading : Reading} {s : Bytes} {report : Malformed}
    (h : (parse reading s).2 = .error report) :
    (parse reading s).1.inBody = reading.inBody := by
  rw [parse] at h ⊢
  rcases hfirst : Line.first s with fault | ⟨content, rest⟩
  · rfl
  · rw [hfirst] at h
    simp only at h ⊢
    rcases hline : parseLine reading content with ⟨reading', fault | unit⟩
    · have hbody := inBody_of_parseLine_error (congrArg Prod.snd hline)
      rwa [hline] at hbody
    · rw [hline] at h
      cases h

/-- A line that is refused does not change whether the client is inside of a body. -/
theorem inBody_of_answer_error {config : Config} {reading : Reading} {line : Bytes}
    {report : Malformed} (h : ((grammar config).answer reading line).1 = some (.error report)) :
    ((grammar config).answer reading line).2.inBody = reading.inBody := by
  rcases Grammar.answer_error_cases h with hsame | ⟨⟨report, hparse⟩, hstate⟩
  · rw [hsame]
  · rw [hstate]
    exact inBody_of_parse_error hparse

end Response

theorem Command.lineLocal_grammar (config : Config) : (grammar config).LineLocal where
  whole _ line hline := by
    show (∃ unit, parse line = _) ∨ ∃ report, parse line = _
    rcases Line.first_cases hline with ⟨content, -, hfirst⟩ | ⟨-, hfirst⟩
    · rw [parse, hfirst]
      simp only
      split
      · exact .inr ⟨_, rfl⟩
      · exact .inl ⟨_, rfl⟩
    · rw [parse, hfirst]
      exact .inr ⟨_, rfl⟩
  skipsNothing _ _ := rfl

/-! ## Both sides -/

/-- What a receiver on either side gives for these lines, and for the front of one more, wherever
the stream is cut, is what each line gives on its own in the state that the lines before it have
left. A line that is refused does not change whether a client is inside of a body. -/
theorem frames_reports (config : Config) {lines : List Bytes} {tail : Bytes}
    (hlines : ∀ l ∈ lines, l.IsLine) (htail : Byte.lf ∉ tail) {pieces : List Bytes}
    (hne : [] ∉ pieces) (hs : pieces.flatten = lines.flatten ++ tail) (chunk : Nat) :
    (∀ reading, (Response.grammar config).Frames reading lines tail (Reported.results
        (Receiver.reports (Response.lawful_grammar config) reading chunk pieces)))
      ∧ (Command.grammar config).Frames () lines tail (Reported.results
        (Receiver.reports (Command.lawful_grammar config) () chunk pieces))
      ∧ ∀ reading line report,
        ((Response.grammar config).answer reading line).1 = some (.error report) →
          ((Response.grammar config).answer reading line).2.inBody = reading.inBody := by
  refine ⟨fun reading => ?_, ?_, fun reading line report => Response.inBody_of_answer_error⟩
  · exact (Response.lineLocal_grammar config).frames (Response.lawful_grammar config) reading hlines
      htail hne hs chunk
  · exact (Command.lineLocal_grammar config).frames (Command.lawful_grammar config) () hlines htail
      hne hs chunk

/-- In a body, a line that is too long is cut inside of its line end, and then come a line feed that
stands alone, the end of the body, a line that is no status, and the front of a line that is too
long already. -/
theorem frames_reports_overlong :
    let config : Config := { limits := { maxLineLength := 8 } }
    let lines := [Bytes.ascii "+OK\r\n", Bytes.ascii "+OK 0123\r\n", Bytes.ascii "\n",
      Bytes.ascii ".\r\n", Bytes.ascii "what\r\n"]
    let tail := Bytes.ascii "+OK 01234"
    let pieces := [Bytes.ascii "+OK\r\n+OK 0123\r", Bytes.ascii "\n\n.\r\nwh",
      Bytes.ascii "at\r\n+OK 01234"]
    (∀ l ∈ lines, l.IsLine) ∧ Byte.lf ∉ tail ∧ [] ∉ pieces
      ∧ pieces.flatten = lines.flatten ++ tail
      ∧ (Response.grammar config).Frames { expectsBody := true } lines tail (Reported.results
        (Receiver.reports (Response.lawful_grammar config) { expectsBody := true } 4096 pieces))
      ∧ (Response.grammar config).answers { expectsBody := true } lines
        = [.ok (.status .positive {}), .error { fault := .lineTooLong, raw := lines[1] },
          .error { fault := .bareLineFeed, raw := lines[2] }, .ok .termination,
          .error { fault := .invalidIndicator, raw := lines[4] }] := by
  intro config lines tail pieces
  have hlines : ∀ l ∈ lines, l.IsLine := by decide +kernel
  have htail : Byte.lf ∉ tail := by decide +kernel
  have hne : [] ∉ pieces := by decide +kernel
  have hs : pieces.flatten = lines.flatten ++ tail := by decide +kernel
  exact ⟨hlines, htail, hne, hs, (frames_reports config hlines htail hne hs 4096).1 _, by rfl⟩

end Pop3

end MailProtocol
