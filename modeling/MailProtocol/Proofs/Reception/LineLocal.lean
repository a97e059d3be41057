import MailProtocol.Proofs.Connection.Reads
import MailProtocol.Proofs.Reception.Runs

/-!
# Line by line

A grammar is line-local (`Grammar.LineLocal`) if every line is a unit or is refused, and if nothing
is skipped behind a line that is refused. `Grammar.answer` is what a line gives on its own, and
`Grammar.Lines` says of a row of lines that it gives a row of units.

A receiver then reports what the lines give one after the other, wherever they are cut
(`Grammar.LineLocal.frames`). A line that is too long may be refused before its end has come. The
rest of it is skipped, and counts as part of the line that has been refused (`LinesRead.within`).
-/

namespace MailProtocol

variable {γ υ : Type}

/-! ## What lines give -/

namespace Grammar

/-- What a line gives on its own, if anything, and the state after it. A line that is too long is
refused, and leaves the state as it was. -/
def answer (G : Grammar γ υ) (g : γ) (line : Bytes) : Option (Except Malformed υ) × γ :=
  if G.maxLineLength < line.length then
    (some (.error { fault := .lineTooLong, raw := line }), g)
  else match G.parse g line with
    | (g, .ok (.complete unit _)) => (some (.ok unit), g)
    | (g, .ok (.incomplete _)) => (none, g)
    | (g, .error report) => (some (.error { report with raw := line }), g)

/-- The state after these lines. -/
def after (G : Grammar γ υ) (g : γ) (lines : List Bytes) : γ :=
  lines.foldl (fun g line => (G.answer g line).2) g

/-- What is kept in mind after a line is up to the reader, as long as the line is not too long. -/
theorem answer_snd (G : Grammar γ υ) (g : γ) (line : Bytes) :
    (G.answer g line).2 = if G.maxLineLength < line.length then g else (G.parse g line).1 := by
  unfold answer
  split
  · rfl
  · rcases G.parse g line with ⟨g', report | ⟨unit, rest⟩ | needs⟩ <;> rfl

/-- What these lines give, each in the state that the lines before it have left. -/
def answers (G : Grammar γ υ) (g : γ) : List Bytes → List (Except Malformed υ)
  | [] => []
  | line :: lines => (G.answer g line).1.toList ++ answers G (G.answer g line).2 lines

/-- The last result of a stream that ends in the front `tail` of a line. -/
def answerTail (G : Grammar γ υ) (tail : Bytes) : List (Except Malformed υ) :=
  if G.maxLineLength < tail.length then [.error { fault := .lineTooLong, raw := tail }] else []

/-- Each line is a unit or is refused, and nothing is skipped. -/
structure LineLocal (G : Grammar γ υ) : Prop where
  whole : ∀ (g : γ) {line : Bytes}, line.IsLine →
    (∃ unit, (G.parse g line).2 = .ok (.complete unit []))
      ∨ ∃ report, (G.parse g line).2 = .error report
  skipsNothing : ∀ (g : γ) (line : Bytes), G.literalToDiscard g line = none

/-- These are the results of the lines, and of the front of a line after them, up to what is shown
of lines that are too long. -/
structure Frames (G : Grammar γ υ) (g : γ) (lines : List Bytes) (tail : Bytes)
    (results : List (Except Malformed υ)) : Prop where
  alike : List.Forall₂ ResultAlike results (G.answers g lines ++ G.answerTail tail)
  /-- There is one result for each line. -/
  length_eq : results.length = lines.length + (G.answerTail tail).length

variable {G : Grammar γ υ}

theorem answers_append (g : γ) (lines lines' : List Bytes) :
    G.answers g (lines ++ lines') = G.answers g lines ++ G.answers (G.after g lines) lines' := by
  induction lines generalizing g with
  | nil => rfl
  | cons line lines ih =>
    rw [List.cons_append, answers, ih, answers, List.append_assoc]
    rfl

theorem answers_concat (g : γ) (lines : List Bytes) (line : Bytes) :
    G.answers g (lines ++ [line])
      = G.answers g lines ++ (G.answer (G.after g lines) line).1.toList := by
  rw [answers_append, answers, answers, List.append_nil]

theorem after_concat (g : γ) (lines : List Bytes) (line : Bytes) :
    G.after g (lines ++ [line]) = (G.answer (G.after g lines) line).2 := by
  rw [after, List.foldl_append]
  rfl

theorem answer_of_long {line : Bytes} (hlong : G.maxLineLength < line.length) (g : γ) :
    G.answer g line = (some (.error { fault := .lineTooLong, raw := line }), g) := if_pos hlong

theorem answer_of_parse {g g' : γ} {line rest : Bytes} {unit : υ}
    (hfit : line.length ≤ G.maxLineLength) (h : G.parse g line = (g', .ok (.complete unit rest))) :
    G.answer g line = (some (.ok unit), g') := by
  rw [answer, if_neg (Nat.not_lt.2 hfit), h]

/-- A line that is refused is too long, and leaves the state as it was, or it cannot be read. -/
theorem answer_error_cases {g : γ} {line : Bytes} {report : Malformed}
    (h : (G.answer g line).1 = some (.error report)) :
    (G.answer g line).2 = g
      ∨ (∃ report, (G.parse g line).2 = .error report)
        ∧ (G.answer g line).2 = (G.parse g line).1 := by
  rw [answer] at h ⊢
  split at h
  · next hlong => exact .inl (by rw [if_pos hlong])
  · next hfit =>
    right
    rw [if_neg hfit]
    rcases hparse : G.parse g line with ⟨g', report | ⟨unit, rest⟩ | needs⟩
    · exact ⟨⟨report, rfl⟩, rfl⟩
    · simp [hparse] at h
    · simp [hparse] at h

namespace LineLocal

/-- A line has its own result. -/
theorem exists_answer (hG : G.LineLocal) (g : γ) {line : Bytes} (hline : line.IsLine) :
    ∃ result, (G.answer g line).1 = some result := by
  rw [answer]
  split
  · exact ⟨_, rfl⟩
  · rcases hG.whole g hline with ⟨unit, hparse⟩ | ⟨report, hparse⟩
    all_goals
      rw [← Prod.eta (G.parse g line), hparse]
      exact ⟨_, rfl⟩

theorem length_answers (hG : G.LineLocal) (g : γ) {lines : List Bytes}
    (hlines : ∀ l ∈ lines, l.IsLine) : (G.answers g lines).length = lines.length := by
  induction lines generalizing g with
  | nil => rfl
  | cons line lines ih =>
    rw [List.forall_mem_cons] at hlines
    obtain ⟨result, hanswer⟩ := hG.exists_answer g hlines.1
    rw [answers, hanswer, Option.toList_some, List.singleton_append, List.length_cons,
      ih _ hlines.2, List.length_cons]

/-- Nothing is skipped. -/
theorem recovery_eq (hG : G.LineLocal) (g : γ) (raw : Bytes) :
    Reception.recovery G g raw = .empty := by
  have hnone : raw.lastLine?.bind (G.literalToDiscard g) = none := by
    cases raw.lastLine? with
    | none => rfl
    | some line => exact hG.skipsNothing g line
  rw [Reception.recovery, hnone]

/-- A line that is there is reported on its own. -/
theorem step_line (hG : G.LineLocal) (g : γ) {line : Bytes} (hline : line.IsLine) (rest : Bytes) :
    ∃ result, (G.answer g line).1 = some result
      ∧ Reception.step G ⟨g, .empty, line ++ rest⟩
        = .inr (result.map .complete, ⟨(G.answer g line).2, .empty, rest⟩) := by
  have hsplit := Bytes.splitLine?_line hline rest
  by_cases hlong : G.maxLineLength < line.length
  · rw [answer_of_long hlong]
    refine ⟨_, rfl, (Reception.step_line_long (Nat.le_refl 0) hsplit hlong).trans ?_⟩
    rw [Reception.refuse, hG.recovery_eq]
    rfl
  · have hstep : Reception.step G ⟨g, .empty, line ++ rest⟩
        = Reception.parse G g rest line 0 :=
      Reception.step_line (Nat.le_refl 0) hsplit (Nat.le_of_not_lt hlong)
    rw [hstep, Reception.parse, answer, if_neg hlong]
    rcases hG.whole g hline with ⟨unit, hparse⟩ | ⟨report, hparse⟩
    · rw [← Prod.eta (G.parse g line), hparse]
      exact ⟨_, rfl, rfl⟩
    · rw [← Prod.eta (G.parse g line), hparse]
      refine ⟨_, rfl, ?_⟩
      simp only [Reception.refuse, hG.recovery_eq]
      rfl

end LineLocal

/-- A line-local grammar reads these lines as these units. -/
structure Lines (G : Grammar γ υ) (g : γ) (lines : List Bytes) (units : List υ) : Prop where
  lineLocal : G.LineLocal
  isLine : ∀ l ∈ lines, l.IsLine
  answers : G.answers g lines = units.map .ok

namespace Lines

variable {g : γ} {lines lines' : List Bytes} {units : List υ}

/-- There is one unit for each line. -/
theorem length_eq (h : G.Lines g lines units) : lines.length = units.length := by
  rw [← h.lineLocal.length_answers g h.isLine, h.answers, List.length_map]

/-- The first lines give the first units. -/
theorem answers_left (h : G.Lines g (lines ++ lines') units) :
    G.answers g lines = (units.take lines.length).map .ok := by
  have hlength := h.lineLocal.length_answers g fun l hl =>
    h.isLine l (List.mem_append_left lines' hl)
  have hanswers := h.answers
  rw [answers_append] at hanswers
  rw [List.map_take, ← hanswers, List.take_left' hlength]

end Lines

end Grammar

/-! ## The lines that have been read -/

/-- Results that are alike units are these units. -/
theorem ResultAlike.eq_map_ok {results : List (Except Malformed υ)} {units : List υ}
    (h : List.Forall₂ ResultAlike results (units.map .ok)) : results = units.map .ok := by
  induction units generalizing results with
  | nil => exact List.forall₂_nil_right_iff.1 h
  | cons unit units ih =>
    obtain ⟨_, rest, hunit, hrest, rfl⟩ := List.forall₂_cons_right_iff.1 h
    cases hunit
    rw [List.map_cons, ih hrest]

namespace Reception

variable {G : Grammar γ υ} {g : γ} {s : Bytes} {results : List (Except Malformed υ)}
  {r r' : Reception γ}

/-- How a reception stands in the string `s` of bytes that have come, when it has given
`results`. -/
inductive LinesRead (G : Grammar γ υ) (g : γ) :
    Bytes → List (Except Malformed υ) → Reception γ → Prop
  /-- What has been read ends with a line. -/
  | between {lines : List Bytes} {buffer : Bytes} {results : List (Except Malformed υ)}
    (hlines : ∀ l ∈ lines, l.IsLine)
    (hresults : List.Forall₂ ResultAlike results (G.answers g lines)) :
    LinesRead G g (lines.flatten ++ buffer) results ⟨G.after g lines, .empty, buffer⟩
  /-- A line that is too long has been refused by its front. -/
  | within {lines : List Bytes} {front buffer : Bytes} {results : List (Except Malformed υ)}
    (hlines : ∀ l ∈ lines, l.IsLine) (hfront : Byte.lf ∉ front)
    (hlong : G.maxLineLength < front.length)
    (hresults : ∀ raw, List.Forall₂ ResultAlike results
      (G.answers g lines ++ [.error { fault := .lineTooLong, raw }])) :
    LinesRead G g (lines.flatten ++ (front ++ buffer)) results
      ⟨G.after g lines, .discarding .line, buffer⟩

namespace LinesRead

theorem start (G : Grammar γ υ) (g : γ) : LinesRead G g [] [] { state := g, buffer := [] } :=
  .between (List.forall_mem_nil _) .nil

theorem extend (h : LinesRead G g s results r) (piece : Bytes) :
    LinesRead G g (s ++ piece) results (r.extend piece) := by
  cases h with
  | between hlines hresults =>
    rw [List.append_assoc]
    exact .between hlines hresults
  | within hlines hfront hlong hresults =>
    rw [List.append_assoc, List.append_assoc]
    exact .within hlines hfront hlong hresults

/-- The line after those that have been read is one of them, too. -/
theorem forall_mem_concat {lines : List Bytes} (hlines : ∀ l ∈ lines, l.IsLine) {line : Bytes}
    (hline : line.IsLine) : ∀ l ∈ lines ++ [line], l.IsLine :=
  List.forall_mem_append.2 ⟨hlines, List.forall_mem_singleton.2 hline⟩

/-- A step reads the next line, or finds too few bytes. No line asks for anything. -/
theorem step (hG : G.LineLocal) (h : LinesRead G g s results r) :
    (∃ r', Reception.step G r = .inl r' ∧ LinesRead G g s results r')
      ∨ ∃ o r', Reception.step G r = .inr (o, r') ∧ Reported.asks o = false
        ∧ LinesRead G g s (results ++ (Reported.result? o).toList) r' := by
  cases h with
  | @between lines buffer _ hlines hresults =>
    right
    rcases hsplit : buffer.splitLine? with _ | ⟨line, rest⟩
    · by_cases hlong : G.maxLineLength < buffer.length
      · refine ⟨_, _, step_line_overflow (Nat.le_refl 0) hsplit hlong, rfl, ?_⟩
        have hfront := Bytes.splitLine?_eq_none_iff.1 hsplit
        rw [← List.append_nil buffer]
        exact .within hlines hfront hlong fun raw =>
          List.rel_append hresults (.cons (.error (.lineTooLong _ raw)) .nil)
      · refine ⟨_, _, step_line_short (Nat.le_refl 0) hsplit (Nat.le_of_not_lt hlong), rfl, ?_⟩
        rw [Reported.result?, Option.toList_none, List.append_nil]
        exact .between hlines hresults
    · obtain ⟨hline, rfl⟩ := Bytes.splitLine?_eq_some_iff.1 hsplit
      obtain ⟨result, hanswer, hstep⟩ := hG.step_line (G.after g lines) hline rest
      refine ⟨_, _, hstep, by cases result <;> rfl, ?_⟩
      have hresult : (Reported.result? (result.map Outcome.complete)).toList = [result] := by
        cases result <;> rfl
      have hs : lines.flatten ++ (line ++ rest) = (lines ++ [line]).flatten ++ rest := by
        rw [List.flatten_append, List.flatten_singleton, List.append_assoc]
      rw [hresult, hs, ← Grammar.after_concat]
      refine .between (forall_mem_concat hlines hline) ?_
      rw [Grammar.answers_concat, hanswer]
      exact List.rel_append hresults (.cons (.refl result) .nil)
  | @within lines front buffer _ hlines hfront hlong hresults =>
    rcases hsplit : buffer.splitLine? with _ | ⟨line, rest⟩
    · right
      refine ⟨_, _, step_skip_line_short _ hsplit, rfl, ?_⟩
      rw [Reported.result?, Option.toList_none, List.append_nil,
        ← List.append_nil (front ++ buffer)]
      refine .within hlines ?_ (Nat.lt_of_lt_of_le hlong ?_) hresults
      · rw [List.mem_append, not_or]
        exact ⟨hfront, Bytes.splitLine?_eq_none_iff.1 hsplit⟩
      · rw [List.length_append]
        exact Nat.le_add_right _ _
    · left
      -- the line ends, of which the front has been refused
      obtain ⟨hline, rfl⟩ := Bytes.splitLine?_eq_some_iff.1 hsplit
      have hskip := step_skip_line (G := G) (G.after g lines) hline rest
      rw [hG.skipsNothing] at hskip
      refine ⟨_, hskip, ?_⟩
      have hwhole : (front ++ line).IsLine := .append hfront hline
      have hlong' : G.maxLineLength < (front ++ line).length := by
        rw [List.length_append]
        omega
      have hanswer := Grammar.answer_of_long hlong' (G.after g lines)
      have hs : lines.flatten ++ (front ++ (line ++ rest))
          = (lines ++ [front ++ line]).flatten ++ rest := by
        simp only [List.flatten_append, List.flatten_singleton, List.append_assoc]
      have hafter : G.after g lines = G.after g (lines ++ [front ++ line]) := by
        rw [Grammar.after_concat, hanswer]
      rw [hs, hafter]
      refine .between (forall_mem_concat hlines hwhole) ?_
      rw [Grammar.answers_concat, hanswer]
      exact hresults _

/-- A run reads lines. -/
theorem of_runs (hG : G.LineLocal) {pieces : List Bytes} {os : List (Reported υ)}
    (h : Runs G { state := g, buffer := [] } pieces os r) :
    LinesRead G g pieces.flatten (Reported.results os) r := by
  induction h with
  | start => exact start G g
  | step _ hstep ih =>
    rcases ih.step hG with ⟨r', hstep', hread⟩ | ⟨o, r', hstep', -, -⟩
    · obtain rfl := Sum.inl.inj (hstep.symm.trans hstep')
      exact hread
    · cases hstep.symm.trans hstep'
  | report _ hstep _ ih =>
    rcases ih.step hG with ⟨r', hstep', -⟩ | ⟨o, r', hstep', -, hread⟩
    · cases hstep.symm.trans hstep'
    · cases hstep.symm.trans hstep'
      rw [Reported.results_append, Reported.results_cons]
      exact (List.append_nil (Option.toList _)).symm ▸ hread
  | needMore _ hstep ih =>
    rcases ih.step hG with ⟨r', hstep', -⟩ | ⟨o, r', hstep', -, hread⟩
    · cases hstep.symm.trans hstep'
    · cases hstep.symm.trans hstep'
      rwa [Reported.result?, Option.toList_none, List.append_nil] at hread
  | read _ _ piece ih =>
    rw [List.flatten_append, List.flatten_singleton]
    exact ih.extend piece

/-- Lines that are all units have been read one by one, up to some line. -/
theorem of_units (h : LinesRead G g s results r) {lines : List Bytes} {units : List υ}
    (hlines : G.Lines g lines units) {more : Bytes} (hs : s ++ more = lines.flatten) :
    ∃ first last, lines = first ++ last ∧ results = G.answers g first
      ∧ r.state = G.after g first ∧ r.fragment = .empty ∧ r.buffer ++ more = last.flatten := by
  cases h with
  | @between first buffer _ hfirst hresults =>
    rw [List.append_assoc] at hs
    obtain ⟨last, rfl, hlast⟩ := Bytes.exists_of_flatten_append_eq hfirst hlines.isLine hs
    refine ⟨first, last, rfl, ?_, rfl, rfl, hlast⟩
    rw [hlines.answers_left] at hresults ⊢
    exact ResultAlike.eq_map_ok hresults
  | @within first front buffer _ hfirst hfront hlong hresults =>
    -- the line that the front belongs to is too long to be a unit
    rw [List.append_assoc] at hs
    obtain ⟨last, rfl, hlast⟩ := Bytes.exists_of_flatten_append_eq hfirst hlines.isLine hs
    rw [List.append_assoc] at hlast
    cases last with
    | nil =>
      obtain ⟨rfl, -⟩ := List.append_eq_nil_iff.1 hlast
      cases hlong
    | cons line last =>
      have hline := Bytes.splitLine?_line (hlines.isLine line (by simp)) last.flatten
      rw [← List.flatten_cons, ← hlast] at hline
      have hlength := Bytes.length_lt_of_splitLine?_append
        (Bytes.splitLine?_eq_none_iff.2 hfront) hline
      have hmem : Except.error { fault := .lineTooLong, raw := line }
          ∈ G.answers g (first ++ line :: last) := by
        rw [Grammar.answers_append, Grammar.answers,
          Grammar.answer_of_long (Nat.lt_trans hlong hlength)]
        exact List.mem_append_right _ List.mem_cons_self
      rw [hlines.answers] at hmem
      obtain ⟨unit, -, hunit⟩ := List.mem_map.1 hmem
      cases hunit

/-- Where too few bytes are there, all lines have been read. -/
theorem of_needMore (hG : G.LineLocal) {n : Nat} (h : LinesRead G g s results r)
    (hstep : Reception.step G r = .inr (.ok (.needMore n), r)) :
    ∃ lines tail, s = lines.flatten ++ tail ∧ (∀ l ∈ lines, l.IsLine) ∧ Byte.lf ∉ tail
      ∧ List.Forall₂ ResultAlike results (G.answers g lines ++ G.answerTail tail)
      ∧ r.state = G.after g lines := by
  cases h with
  | @between lines buffer _ hlines hresults =>
    rcases hsplit : buffer.splitLine? with _ | ⟨line, rest⟩
    · by_cases hlong : G.maxLineLength < buffer.length
      · cases hstep.symm.trans (step_line_overflow (Nat.le_refl 0) hsplit hlong)
      · refine ⟨lines, buffer, rfl, hlines, Bytes.splitLine?_eq_none_iff.1 hsplit, ?_, rfl⟩
        rw [Grammar.answerTail, if_neg hlong, List.append_nil]
        exact hresults
    · obtain ⟨hline, rfl⟩ := Bytes.splitLine?_eq_some_iff.1 hsplit
      obtain ⟨result, -, hstep'⟩ := hG.step_line (G.after g lines) hline rest
      have hreport := hstep.symm.trans hstep'
      cases result <;> cases hreport
  | @within lines front buffer _ hlines hfront hlong hresults =>
    rcases hsplit : buffer.splitLine? with _ | ⟨line, rest⟩
    · -- what was there of the line has been dropped
      have hdropped := hstep.symm.trans (step_skip_line_short _ hsplit)
      obtain ⟨-, rfl⟩ : n = 1 ∧ buffer = [] := by simpa using hdropped
      refine ⟨lines, front, by rw [List.append_nil], hlines, hfront, ?_, rfl⟩
      rw [Grammar.answerTail, if_pos hlong]
      exact hresults front
    · obtain ⟨hline, rfl⟩ := Bytes.splitLine?_eq_some_iff.1 hsplit
      cases hstep.symm.trans (step_skip_line (G := G) (G.after g lines) hline rest)

end LinesRead

end Reception

/-- The peer waits for nothing between lines. -/
theorem Grammar.LineLocal.dues_eq_nil {G : Grammar γ υ} (hlocal : G.LineLocal) {g : γ}
    {pieces : List Bytes} {os : List (Reported υ)} {r : Reception γ}
    (h : Reception.Runs G { state := g, buffer := [] } pieces os r) (before : Nat) :
    Reported.dues before os = [] := by
  induction h with
  | start => rfl
  | step _ _ ih | needMore _ _ ih | read _ _ _ ih => exact ih
  | report h hstep _ ih =>
    rcases (Reception.LinesRead.of_runs hlocal h).step hlocal with
      ⟨r', hstep', -⟩ | ⟨o, r', hstep', hasks, -⟩
    · cases hstep.symm.trans hstep'
    · cases hstep.symm.trans hstep'
      rw [Reported.dues_append, ih, Reported.dues, hasks]
      rfl

/-- A reception that is fed lines and the front of one more, in any pieces, gives the result of each
line, and then stands in the state that the lines leave. -/
theorem Grammar.LineLocal.exists_runs_lines {G : Grammar γ υ} (hlocal : G.LineLocal) (hG : G.Lawful)
    (g : γ) {lines : List Bytes} {tail : Bytes} (hlines : ∀ l ∈ lines, l.IsLine)
    (htail : Byte.lf ∉ tail) {pieces : List Bytes} (hs : pieces.flatten = lines.flatten ++ tail) :
    ∃ r n, Reception.Runs G { state := g, buffer := [] } pieces
        (Reception.feed hG { state := g, buffer := [] } pieces) r
      ∧ Reception.step G r = .inr (.ok (.needMore n), r)
      ∧ List.Forall₂ ResultAlike
        (Reported.results (Reception.feed hG { state := g, buffer := [] } pieces))
        (G.answers g lines ++ G.answerTail tail)
      ∧ r.state = G.after g lines := by
  obtain ⟨r, n, hruns, hneed⟩ := Reception.exists_runs_feed hG { state := g, buffer := [] } pieces
  obtain ⟨lines', tail', hs', hlines', htail', halike, hstate⟩ :=
    (Reception.LinesRead.of_runs hlocal hruns).of_needMore hlocal hneed
  obtain ⟨rfl, rfl⟩ := Bytes.eq_of_flatten_append_eq hlines hlines' htail htail' (hs.symm.trans hs')
  exact ⟨r, n, hruns, hneed, halike, hstate⟩

theorem Grammar.LineLocal.alike_feed {G : Grammar γ υ} (hlocal : G.LineLocal) (hG : G.Lawful)
    (g : γ) {lines : List Bytes} {tail : Bytes} (hlines : ∀ l ∈ lines, l.IsLine)
    (htail : Byte.lf ∉ tail) {pieces : List Bytes} (hs : pieces.flatten = lines.flatten ++ tail) :
    List.Forall₂ ResultAlike
      (Reported.results (Reception.feed hG { state := g, buffer := [] } pieces))
      (G.answers g lines ++ G.answerTail tail) :=
  let ⟨_, _, _, _, halike, _⟩ := hlocal.exists_runs_lines hG g hlines htail hs
  halike

/-- Lines that are units are read as these, wherever they are cut. -/
theorem Grammar.Lines.results_feed {G : Grammar γ υ} {g : γ} {lines : List Bytes} {units : List υ}
    (h : G.Lines g lines units) (hG : G.Lawful) {pieces : List Bytes}
    (hs : pieces.flatten = lines.flatten) :
    Reported.results (Reception.feed hG { state := g, buffer := [] } pieces)
      = units.map .ok := by
  have halike := h.lineLocal.alike_feed hG g h.isLine List.not_mem_nil
    (hs.trans (List.append_nil _).symm)
  have htail : G.answerTail [] = [] := if_neg (Nat.not_lt_zero _)
  rw [htail, List.append_nil, h.answers] at halike
  exact ResultAlike.eq_map_ok halike

/-- A receiver gives the result of each line, wherever they are cut. -/
theorem Grammar.LineLocal.frames {G : Grammar γ υ} (hlocal : G.LineLocal) (hG : G.Lawful) (g : γ)
    {lines : List Bytes} {tail : Bytes} (hlines : ∀ l ∈ lines, l.IsLine) (htail : Byte.lf ∉ tail)
    {pieces : List Bytes} (hne : [] ∉ pieces) (hs : pieces.flatten = lines.flatten ++ tail)
    (chunk : Nat) :
    G.Frames g lines tail (Reported.results (Receiver.reports hG g chunk pieces)) := by
  have halike := hlocal.alike_feed hG g hlines htail ((Bytes.flatten_readBy chunk hne).trans hs)
  rw [← Receiver.reports_eq_feed] at halike
  refine ⟨halike, ?_⟩
  rw [halike.length_eq, List.length_append, hlocal.length_answers g hlines]

end MailProtocol
