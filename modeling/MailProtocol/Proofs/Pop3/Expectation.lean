import MailProtocol.Proofs.Pop3.Framing

/-!
# What becomes of an expected body

A client that expects a body should keep that in mind until a status comes. It does over a line that
is too long or ends in a line feed that stands alone, and over the end of a body that has not begun
(`Spares`). It does not over any other line that is no status, such as a challenge: the expectation
is used up (`after_eq_ite`), and the body that follows the status is not read as one
(`not_expects_after_challenge`). `expects_iff_spared` says what becomes of the expectation whatever
comes before the status, and how long the body lasts if it begins.
-/

namespace MailProtocol.Pop3.Response

/-- The indicator of a line that is a well-formed status and is not too long. -/
def statusIndicator? (config : Config) (line : Bytes) : Option Indicator :=
  if config.limits.maxLineLength < line.length ∨ ¬Bytes.crlf <:+ line then none
  else
    let (word, rest) := line.trimLineEnding.splitWord
    (Indicator.ofWord? word).filter fun _ => (parseText rest).isOk

/-- Outside of a body the line changes nothing: it is too long, its line feed stands alone, or it is
a lone dot. -/
def Spares (config : Config) (line : Bytes) : Prop :=
  config.limits.maxLineLength < line.length ∨ ¬Bytes.crlf <:+ line
    ∨ line = Byte.dot :: Bytes.crlf

instance (config : Config) (line : Bytes) : Decidable (Spares config line) :=
  inferInstanceAs (Decidable (_ ∨ _ ∨ _))

variable {config : Config} {reading : Reading} {line : Bytes} {indicator : Indicator}

/-! ## Line by line -/

/-- A line leaves what it leaves by its content. -/
theorem parse_fst {content rest : Bytes} (h : Line.first line = .ok (content, rest)) :
    (parse reading line).1 = (parseLine reading content).1 := by
  rw [parse, h]
  simp only
  rcases parseLine reading content with ⟨reading', fault | unit⟩ <;> rfl

/-- What is kept in mind after a line that is neither in a body nor a lone dot. -/
theorem parseStatus_fst (expectsBody : Bool) (content : Bytes) :
    (parseStatus expectsBody content).1
      = { inBody := expectsBody && (Indicator.ofWord? content.splitWord.1).filter
            (fun _ => (parseText content.splitWord.2).isOk) = some .positive } := by
  rw [parseStatus]
  simp only
  cases Indicator.ofWord? content.splitWord.1 with
  | none =>
    have hnothing : ({ inBody := expectsBody && false } : Reading) = {} := by
      rw [Bool.and_false]
    refine Eq.trans ?_ hnothing.symm
    show (if content.splitWord.1 = [Byte.plus] then ({}, .ok (continuation content.splitWord.2))
      else ({}, .error .invalidIndicator) : Reading × Except Fault Response).1 = {}
    split <;> rfl
  | some indicator =>
    cases parseText content.splitWord.2 with
    | error fault => simp [Except.isOk, Except.toBool]
    | ok text => simp [Except.isOk, Except.toBool]

theorem statusIndicator?_crlf {content : Bytes}
    (hfit : (content ++ Bytes.crlf).length ≤ config.limits.maxLineLength) :
    statusIndicator? config (content ++ Bytes.crlf)
      = (Indicator.ofWord? content.splitWord.1).filter
        fun _ => (parseText content.splitWord.2).isOk := by
  have hread : ¬(config.limits.maxLineLength < (content ++ Bytes.crlf).length
      ∨ ¬Bytes.crlf <:+ content ++ Bytes.crlf) := by
    rw [not_or, not_not]
    exact ⟨Nat.not_lt.2 hfit, List.suffix_append content Bytes.crlf⟩
  rw [statusIndicator?, if_neg hread, Bytes.trimLineEnding_crlf]

/-- A status is a line that is read, and no lone dot. -/
theorem not_spares_of_status (h : statusIndicator? config line = some indicator) :
    ¬Spares config line := by
  rw [statusIndicator?] at h
  split at h
  · cases h
  · next hread =>
    rw [not_or] at hread
    refine not_or_intro hread.1 (not_or_intro hread.2 ?_)
    rintro rfl
    cases h

/-- What a client that is in no body keeps in mind after a line. -/
theorem answer_snd_eq_ite (hbody : reading.inBody = false) (hline : line.IsLine) :
    ((grammar config).answer reading line).2
      = if Spares config line then reading
        else
          { inBody := reading.expectsBody && statusIndicator? config line = some .positive } := by
  rw [Grammar.answer_snd]
  show (if config.limits.maxLineLength < line.length then reading else (parse reading line).1) = _
  by_cases hlong : config.limits.maxLineLength < line.length
  · rw [if_pos hlong, if_pos (.inl hlong)]
  · rw [if_neg hlong]
    rcases Line.first_cases hline with ⟨content, rfl, hfirst⟩ | ⟨hbare, hfirst⟩
    · rw [parse_fst hfirst, statusIndicator?_crlf (Nat.le_of_not_lt hlong), parseLine]
      by_cases hdot : content = [Byte.dot]
      · subst hdot
        rw [if_pos rfl, if_pos (.inr (.inr rfl)), ← hbody]
      · have hread : ¬Spares config (content ++ Bytes.crlf) := by
          refine not_or_intro hlong (not_or_intro (not_not_intro ⟨content, rfl⟩) fun h => hdot ?_)
          exact (List.append_left_inj Bytes.crlf).1 h
        rw [if_neg hdot, hbody, if_neg Bool.false_ne_true, if_neg hread, parseStatus_fst]
    · rw [parse, hfirst, if_pos (.inr (.inl hbare))]

/-- In a body no line but the one that ends it changes anything. -/
theorem answer_snd_of_inBody (hbody : reading.inBody = true) (hline : line.IsLine)
    (hend : line ≠ Byte.dot :: Bytes.crlf) :
    ((grammar config).answer reading line).2 = reading := by
  rw [Grammar.answer_snd]
  split
  · rfl
  · show (parse reading line).1 = reading
    rcases Line.first_cases hline with ⟨content, rfl, hfirst⟩ | ⟨-, hfirst⟩
    · have hdot : content ≠ [Byte.dot] := by
        rintro rfl
        exact hend rfl
      rw [parse_fst hfirst, parseLine, if_neg hdot, if_pos hbody]
    · rw [parse, hfirst]

/-- A lone dot ends a body, as long as lines may be as long as that. -/
theorem answer_snd_dot (hfit : (Byte.dot :: Bytes.crlf).length ≤ config.limits.maxLineLength) :
    ((grammar config).answer reading (Byte.dot :: Bytes.crlf)).2
      = { reading with inBody := false } := by
  rw [Grammar.answer_snd]
  refine (if_neg (Nat.not_lt.2 hfit)).trans ?_
  exact parse_fst (show Line.first (Byte.dot :: Bytes.crlf) = .ok ([Byte.dot], []) from rfl)

/-- A status is as long as a lone dot, at least. -/
theorem dot_fits_of_status (h : statusIndicator? config line = some indicator) :
    (Byte.dot :: Bytes.crlf).length ≤ config.limits.maxLineLength := by
  have hspared := not_spares_of_status h
  obtain ⟨hlong, hspared⟩ := not_or.1 hspared
  obtain ⟨content, rfl⟩ := not_not.1 (not_or.1 hspared).1
  rw [statusIndicator?_crlf (Nat.le_of_not_lt hlong)] at h
  cases content with
  | nil => cases h
  | cons b content =>
    rw [List.length_append, List.length_cons] at hlong
    rw [List.length_cons]
    omega

/-! ## From line to line -/

/-- Lines before a status either all spare what is kept in mind, or leave nothing of it. -/
theorem after_eq_ite (hbody : reading.inBody = false) {lines : List Bytes}
    (hlines : ∀ l ∈ lines, l.IsLine ∧ statusIndicator? config l = none) :
    (grammar config).after reading lines
      = if ∀ l ∈ lines, Spares config l then reading else {} := by
  induction lines generalizing reading with
  | nil => exact (if_pos (List.forall_mem_nil _)).symm
  | cons line lines ih =>
    obtain ⟨⟨hline, hnone⟩, hmore⟩ := List.forall_mem_cons.1 hlines
    show (grammar config).after ((grammar config).answer reading line).2 lines = _
    rw [answer_snd_eq_ite hbody hline, hnone]
    by_cases hspared : Spares config line
    · rw [if_pos hspared, ih hbody hmore]
      simp only [List.forall_mem_cons, hspared, true_and]
    · have hnothing :
          ({ inBody := reading.expectsBody && none = some Indicator.positive } : Reading) = {} := by
        rw [decide_eq_false (by simp), Bool.and_false]
      have hsome : ¬∀ l ∈ line :: lines, Spares config l :=
        fun h => hspared (h _ List.mem_cons_self)
      rw [if_neg hspared, if_neg hsome, hnothing, ih rfl hmore, ite_self]

section
variable {lines : List Bytes}

/-- No line begins a body but a status. -/
theorem inBody_after (hbody : reading.inBody = false)
    (hlines : ∀ l ∈ lines, l.IsLine ∧ statusIndicator? config l = none) :
    ((grammar config).after reading lines).inBody = false := by
  rw [after_eq_ite hbody hlines]
  split
  · exact hbody
  · rfl

/-- The expectation is still there just if each line has spared it. -/
theorem expectsBody_after_iff (hexpects : reading.expectsBody = true)
    (hbody : reading.inBody = false)
    (hlines : ∀ l ∈ lines, l.IsLine ∧ statusIndicator? config l = none) :
    ((grammar config).after reading lines).expectsBody = true ↔ ∀ l ∈ lines, Spares config l := by
  rw [after_eq_ite hbody hlines]
  split
  · next h => exact iff_of_true hexpects h
  · next h => exact iff_of_false Bool.false_ne_true h

/-- A status uses up the expectation, and begins a body if it is positive and the expectation was
there. -/
theorem after_concat_status (hbody : reading.inBody = false)
    (hlines : ∀ l ∈ lines, l.IsLine ∧ statusIndicator? config l = none) (hline : line.IsLine)
    (hstatus : statusIndicator? config line = some indicator) :
    (grammar config).after reading (lines ++ [line])
      = { inBody := ((grammar config).after reading lines).expectsBody
          && indicator = .positive } := by
  rw [Grammar.after_concat, answer_snd_eq_ite (inBody_after hbody hlines) hline,
    if_neg (not_spares_of_status hstatus), hstatus]
  simp only [Option.some.injEq]

end

/-- A body goes on over any lines but the one that ends it. -/
theorem after_of_inBody (hbody : reading.inBody = true) {body : List Bytes}
    (h : ∀ l ∈ body, l.IsLine ∧ l ≠ Byte.dot :: Bytes.crlf) :
    (grammar config).after reading body = reading := by
  induction body with
  | nil => rfl
  | cons line body ih =>
    obtain ⟨⟨hline, hend⟩, hmore⟩ := List.forall_mem_cons.1 h
    show (grammar config).after ((grammar config).answer reading line).2 body = _
    rw [answer_snd_of_inBody hbody hline hend, ih hmore]

/-- A body lasts up to the first lone dot. -/
theorem inBody_until_dot (hbody : reading.inBody = true)
    (hfit : (Byte.dot :: Bytes.crlf).length ≤ config.limits.maxLineLength) {body : List Bytes}
    (h : ∀ l ∈ body, l.IsLine ∧ l ≠ Byte.dot :: Bytes.crlf) :
    ((grammar config).after reading body).inBody = true
      ∧ ((grammar config).after reading (body ++ [Byte.dot :: Bytes.crlf])).inBody = false := by
  rw [Grammar.after_concat, after_of_inBody hbody h, answer_snd_dot hfit]
  exact ⟨hbody, rfl⟩

/-- What becomes of the expectation of a body when lines come that are no status, and then a status.
It is there when the status comes just if each of the lines spares it, and is used up by the
status, which begins a body just if it is positive and the expectation was there. The body lasts up
to the first lone dot. A receiver keeps in mind what the lines leave, wherever they are cut. -/
theorem expects_iff_spared (hexpects : reading.expectsBody = true) (hbody : reading.inBody = false)
    {lines : List Bytes} (hlines : ∀ l ∈ lines, l.IsLine ∧ statusIndicator? config l = none)
    (hline : line.IsLine) (hstatus : statusIndicator? config line = some indicator) :
    let arrived := (grammar config).after reading lines
    let begun := (grammar config).after reading (lines ++ [line])
    (arrived.expectsBody = true ↔ ∀ l ∈ lines, Spares config l)
      ∧ begun.expectsBody = false
      ∧ (begun.inBody = true ↔ indicator = .positive ∧ ∀ l ∈ lines, Spares config l)
      ∧ (begun.inBody = true →
        ∀ body : List Bytes, (∀ l ∈ body, l.IsLine ∧ l ≠ Byte.dot :: Bytes.crlf) →
          ((grammar config).after begun body).inBody = true
            ∧ ((grammar config).after begun (body ++ [Byte.dot :: Bytes.crlf])).inBody = false)
      ∧ ∀ received pieces : List Bytes, (∀ l ∈ received, l.IsLine) →
        pieces.flatten = received.flatten →
        ∃ r n, Reception.Runs (grammar config) { state := reading, buffer := [] } pieces
            (Reception.feed (lawful_grammar config) { state := reading, buffer := [] } pieces) r
          ∧ Reception.step (grammar config) r = .inr (.ok (.needMore n), r)
          ∧ r.state = (grammar config).after reading received := by
  intro arrived begun
  have hexpected : arrived.expectsBody = true ↔ ∀ l ∈ lines, Spares config l :=
    expectsBody_after_iff hexpects hbody hlines
  have hbegun : begun = { inBody := arrived.expectsBody && indicator = .positive } :=
    after_concat_status hbody hlines hline hstatus
  refine ⟨hexpected, by rw [hbegun], ?_, ?_, ?_⟩
  · rw [hbegun, ← hexpected]
    show (arrived.expectsBody && indicator = .positive) = true ↔ _
    rw [Bool.and_eq_true, decide_eq_true_eq, and_comm]
  · exact fun hin body hlasting => inBody_until_dot hin (dot_fits_of_status hstatus) hlasting
  · intro received pieces hreceived hs
    obtain ⟨r, n, hruns, hneed, -, hstate⟩ := (lineLocal_grammar config).exists_runs_lines
      (lawful_grammar config) reading hreceived List.not_mem_nil (hs.trans (List.append_nil _).symm)
    exact ⟨r, n, hruns, hneed, hstate⟩

/-- A status that is too long, one before a line feed that stands alone, and a lone dot keep the
expectation, and the status that comes then begins a body. -/
theorem expects_iff_spared_overlong :
    let config : Config := { limits := { maxLineLength := 9 } }
    let expecting : Reading := { expectsBody := true }
    let lines := [Bytes.ascii "+OK 0123\r\n", Bytes.ascii "+OK\n", Bytes.ascii ".\r\n"]
    let line := Bytes.ascii "+ok [x]\r\n"
    (∀ l ∈ lines, l.IsLine ∧ statusIndicator? config l = none)
      ∧ line.IsLine ∧ statusIndicator? config line = some .positive
      ∧ ((grammar config).after expecting lines).expectsBody = true
      ∧ ((grammar config).after expecting (lines ++ [line])).inBody = true := by
  intro config expecting lines line
  have hlines : ∀ l ∈ lines, l.IsLine ∧ statusIndicator? config l = none := by decide +kernel
  have hline : line.IsLine := by decide +kernel
  have hstatus : statusIndicator? config line = some .positive := by decide +kernel
  have hspared : ∀ l ∈ lines, Spares config l := by decide +kernel
  have hexpects : expecting.expectsBody = true := rfl
  have hbody : expecting.inBody = false := rfl
  obtain ⟨hexpected, -, hbegun, -⟩ := expects_iff_spared hexpects hbody hlines hline hstatus
  exact ⟨hlines, hline, hstatus, hexpected.2 hspared, hbegun.2 ⟨rfl, hspared⟩⟩

/-- A challenge, a line that is no response and a status with a code that is not closed use up the
expectation. The body behind the status is not read as one. -/
theorem not_expects_after_challenge :
    let expecting : Reading := { expectsBody := true }
    let ok := Bytes.ascii "+OK\r\n"
    (∀ l ∈ [Bytes.ascii "+ go\r\n", Bytes.ascii "what\r\n", Bytes.ascii "+OK [x\r\n"],
      l.IsLine ∧ statusIndicator? {} l = none
        ∧ ((grammar {}).after expecting [l]).expectsBody = false
        ∧ ((grammar {}).after expecting [l, ok]).inBody = false)
      ∧ ok.IsLine ∧ statusIndicator? {} ok = some .positive
      ∧ (grammar {}).answers expecting
          [Bytes.ascii "+ go\r\n", ok, Bytes.ascii "hello\r\n", Bytes.ascii ".\r\n"]
        = [.ok (.continuation (Bytes.ascii "go")), .ok (.status .positive {}),
          .error { fault := .invalidIndicator, raw := Bytes.ascii "hello\r\n" },
          .ok .termination] := by
  intro expecting ok
  refine ⟨?_, by decide +kernel, by decide +kernel, by rfl⟩
  intro l hl
  rw [List.mem_cons, List.mem_cons, List.mem_singleton] at hl
  rcases hl with rfl | rfl | rfl
  all_goals exact ⟨by decide +kernel, by decide +kernel, by decide +kernel, by decide +kernel⟩

end MailProtocol.Pop3.Response
