import MailProtocol.Proofs.Bytes.Lines
import MailProtocol.Reception

/-!
# Steps of a reception

What one step does, by where the reception stands: the fragment waits for a literal that is there
(`step_literal`) or not yet there (`step_literal_short`), or for a line that is there
(`step_line`), too long (`step_line_long`), not yet there (`step_line_short`), or too long already
before its end has come (`step_line_overflow`). So it is with what is skipped (`step_skip_literal`,
`step_skip_line`), of which nothing is kept that comes in part. What the grammar can make of a
fragment is listed by `asked_parse`.

With more bytes behind those that are there, a step does the same, unless it found too few of them
(`step_extend`). After a step that announces a literal the reception waits for it
(`isContinuing_of_step`).
-/

namespace MailProtocol

variable {γ υ : Type} {G : Grammar γ υ}

/-- Nothing is being skipped. -/
def Fragment.isKept : Fragment → Bool
  | .gathering _ _ | .leftover _ => true
  | .discarding _ => false

/-! ## What may differ -/

/-- One refusal as two receivers may report it. Only of a line that is too long may they show
different bytes. -/
structure Malformed.Alike (m n : Malformed) : Prop where
  fault : m.fault = n.fault
  tag : m.tag = n.tag
  raw : m.fault ≠ .lineTooLong → m.raw = n.raw

namespace Malformed.Alike

theorem refl (m : Malformed) : Alike m m := ⟨rfl, rfl, fun _ => rfl⟩

theorem symm {m n : Malformed} (h : Alike m n) : Alike n m :=
  ⟨h.fault.symm, h.tag.symm, fun hne => (h.raw (h.fault ▸ hne)).symm⟩

theorem trans {m n k : Malformed} (h : Alike m n) (h' : Alike n k) : Alike m k :=
  ⟨h.fault.trans h'.fault, h.tag.trans h'.tag,
    fun hne => (h.raw hne).trans (h'.raw (h.fault ▸ hne))⟩

/-- Lines that are too long are refused alike, whatever is shown of them. -/
theorem lineTooLong (raw raw' : Bytes) :
    Alike { fault := .lineTooLong, raw } { fault := .lineTooLong, raw := raw' } :=
  ⟨rfl, rfl, fun hne => absurd rfl hne⟩

end Malformed.Alike

/-- The same unit, or refusals that are alike. -/
inductive ResultAlike : Except Malformed υ → Except Malformed υ → Prop
  | ok (unit : υ) : ResultAlike (.ok unit) (.ok unit)
  | error {m n : Malformed} (h : m.Alike n) : ResultAlike (.error m) (.error n)

theorem ResultAlike.refl (result : Except Malformed υ) : ResultAlike result result := by
  cases result with
  | ok unit => exact .ok unit
  | error m => exact .error (.refl m)

namespace Reception

/-! ## A unit is being gathered -/

section
variable {state : γ} {buffer bytes : Bytes} {required : Nat}

theorem step_literal (hwait : bytes.length < required)
    (hthere : required - bytes.length ≤ buffer.length) :
    step G ⟨state, .gathering bytes required, buffer⟩
      = parse G state (buffer.drop (required - bytes.length))
          (bytes ++ buffer.take (required - bytes.length)) required := by
  simp only [step, if_pos hwait, if_pos hthere]

theorem step_literal_short (hwait : bytes.length < required)
    (hthere : buffer.length < required - bytes.length) :
    step G ⟨state, .gathering bytes required, buffer⟩
      = .inr (.ok (.needMore (required - bytes.length - buffer.length)),
          ⟨state, .gathering bytes required, buffer⟩) := by
  simp only [step, if_pos hwait, if_neg (Nat.not_le.2 hthere)]

theorem step_line (hwait : required ≤ bytes.length) {line rest : Bytes}
    (hline : buffer.splitLine? = some (line, rest)) (hfit : line.length ≤ G.maxLineLength) :
    step G ⟨state, .gathering bytes required, buffer⟩
      = parse G state rest (bytes ++ line) required := by
  simp only [step, if_neg (Nat.not_lt.2 hwait), hline, if_neg (Nat.not_lt.2 hfit)]

theorem step_line_long (hwait : required ≤ bytes.length) {line rest : Bytes}
    (hline : buffer.splitLine? = some (line, rest)) (hlong : G.maxLineLength < line.length) :
    step G ⟨state, .gathering bytes required, buffer⟩
      = .inr (refuse G state rest { fault := .lineTooLong } line) := by
  simp only [step, if_neg (Nat.not_lt.2 hwait), hline, if_pos hlong]

theorem step_line_short (hwait : required ≤ bytes.length) (hline : buffer.splitLine? = none)
    (hfit : buffer.length ≤ G.maxLineLength) :
    step G ⟨state, .gathering bytes required, buffer⟩
      = .inr (.ok (.needMore 1), ⟨state, .gathering bytes required, buffer⟩) := by
  simp only [step, if_neg (Nat.not_lt.2 hwait), hline, if_neg (Nat.not_lt.2 hfit)]

theorem step_line_overflow (hwait : required ≤ bytes.length) (hline : buffer.splitLine? = none)
    (hlong : G.maxLineLength < buffer.length) :
    step G ⟨state, .gathering bytes required, buffer⟩
      = .inr (.error { fault := .lineTooLong, raw := droppedNote buffer.length },
          ⟨state, .discarding .line, []⟩) := by
  simp only [step, if_neg (Nat.not_lt.2 hwait), hline, if_pos hlong]

end

/-- The bytes that a fragment can take next: what its literal misses, or a line that fits. -/
inductive Takes (limit : Nat) (bytes : Bytes) (required : Nat) (piece : Bytes) : Prop
  | literal (hwait : bytes.length < required) (hlen : piece.length = required - bytes.length)
  | line (hwait : required ≤ bytes.length) (hline : piece.IsLine) (hfit : piece.length ≤ limit)

/-- No byte of a literal is missing any more. -/
theorem Takes.le_length {limit required : Nat} {bytes piece : Bytes}
    (h : Takes limit bytes required piece) : required ≤ (bytes ++ piece).length := by
  rw [List.length_append]
  cases h <;> omega

/-- What a fragment can take is taken, and the grammar is asked about the longer fragment. -/
theorem step_of_takes {bytes piece : Bytes} {required : Nat}
    (h : Takes G.maxLineLength bytes required piece) (state : γ) (rest : Bytes) :
    step G ⟨state, .gathering bytes required, piece ++ rest⟩
      = parse G state rest (bytes ++ piece) required := by
  cases h with
  | literal hwait hlen =>
    rw [step_literal hwait (by rw [List.length_append]; omega), ← hlen, List.drop_left,
      List.take_left]
  | line hwait hline hfit => exact step_line hwait (Bytes.splitLine?_line hline rest) hfit

/-- While a unit is being gathered a step takes a piece, finds too few bytes, or refuses a line that
is too long, as a whole or by its front. -/
inductive GatheringStep (G : Grammar γ υ) (g : γ) (bytes : Bytes) (required : Nat)
    (buffer : Bytes) : Reception γ ⊕ Report γ υ → Prop
  | takes {piece rest : Bytes} (hbuffer : buffer = piece ++ rest)
    (htakes : Takes G.maxLineLength bytes required piece) :
    GatheringStep G g bytes required buffer (parse G g rest (bytes ++ piece) required)
  | needMore (n : Nat) : GatheringStep G g bytes required buffer
      (.inr (.ok (.needMore n), ⟨g, .gathering bytes required, buffer⟩))
  | long {line rest : Bytes} (hbuffer : buffer = line ++ rest) (hline : line.IsLine)
    (hlong : G.maxLineLength < line.length) : GatheringStep G g bytes required buffer
      (.inr (refuse G g rest { fault := .lineTooLong } line))
  | overflow : GatheringStep G g bytes required buffer
      (.inr (.error { fault := .lineTooLong, raw := droppedNote buffer.length },
        ⟨g, .discarding .line, []⟩))

theorem gatheringStep_step (G : Grammar γ υ) (g : γ) (bytes : Bytes) (required : Nat)
    (buffer : Bytes) : GatheringStep G g bytes required buffer
      (step G ⟨g, .gathering bytes required, buffer⟩) := by
  by_cases hwait : bytes.length < required
  · by_cases hthere : required - bytes.length ≤ buffer.length
    · rw [step_literal hwait hthere]
      exact .takes (List.take_append_drop (required - bytes.length) buffer).symm
        (.literal hwait (List.length_take_of_le hthere))
    · rw [step_literal_short hwait (Nat.lt_of_not_le hthere)]
      exact .needMore _
  · have hwait : required ≤ bytes.length := Nat.le_of_not_lt hwait
    rcases hline : buffer.splitLine? with _ | ⟨line, rest⟩
    · by_cases hlong : G.maxLineLength < buffer.length
      · rw [step_line_overflow hwait hline hlong]
        exact .overflow
      · rw [step_line_short hwait hline (Nat.le_of_not_lt hlong)]
        exact .needMore 1
    · obtain ⟨hisLine, hbuffer⟩ := Bytes.splitLine?_eq_some_iff.1 hline
      by_cases hlong : G.maxLineLength < line.length
      · rw [step_line_long hwait hline hlong]
        exact .long hbuffer hisLine hlong
      · rw [step_line hwait hline (Nat.le_of_not_lt hlong)]
        exact .takes hbuffer (.line hwait hisLine (Nat.le_of_not_lt hlong))

/-! ## A refused unit is being skipped -/

section
variable (state : γ) {buffer : Bytes}

theorem step_skip_literal (data rest : Bytes) :
    step G ⟨state, .discarding (.literal data.length), data ++ rest⟩
      = .inl ⟨state, .discarding .line, rest⟩ := by
  simp [step]

theorem step_skip_literal_short {length : Nat} (hshort : buffer.length < length) :
    step G ⟨state, .discarding (.literal length), buffer⟩
      = .inr (.ok (.needMore (length - buffer.length)),
          ⟨state, .discarding (.literal (length - buffer.length)), []⟩) := by
  simp only [step, if_neg (Nat.not_le.2 hshort)]

theorem step_skip_line {line : Bytes} (hline : line.IsLine) (rest : Bytes) :
    step G ⟨state, .discarding .line, line ++ rest⟩
      = .inl ⟨state, (G.literalToDiscard state line.trimLineEnding).elim .empty
          fun length => .discarding (.literal length), rest⟩ := by
  simp only [step, Bytes.splitLine?_line hline rest]
  cases G.literalToDiscard state line.trimLineEnding <;> rfl

theorem step_skip_line_short (hshort : buffer.splitLine? = none) :
    step G ⟨state, .discarding .line, buffer⟩
      = .inr (.ok (.needMore 1), ⟨state, .discarding .line, []⟩) := by
  simp only [step, hshort]

end

/-- While a refused unit is being skipped, a step goes on with that or has skipped it all, or it
finds too few bytes. -/
theorem step_skip_cases (state : γ) (what : Discard) (buffer : Bytes) :
    (∃ f rest, step G ⟨state, .discarding what, buffer⟩ = .inl ⟨state, f, rest⟩
        ∧ (f = .empty ∨ ∃ what', f = .discarding what'))
      ∨ ∃ n what', step G ⟨state, .discarding what, buffer⟩
        = .inr (.ok (.needMore n), ⟨state, .discarding what', []⟩) := by
  cases what with
  | literal length =>
    by_cases hthere : length ≤ buffer.length
    · left
      refine ⟨.discarding .line, buffer.drop length, ?_, .inr ⟨_, rfl⟩⟩
      simp only [step, if_pos hthere]
    · right
      exact ⟨_, _, step_skip_literal_short state (Nat.lt_of_not_le hthere)⟩
  | line =>
    rcases hsplit : buffer.splitLine? with _ | ⟨line, rest⟩
    · right
      exact ⟨_, _, step_skip_line_short state hsplit⟩
    · left
      obtain ⟨hline, rfl⟩ := Bytes.splitLine?_eq_some_iff.1 hsplit
      refine ⟨_, _, step_skip_line state hline rest, ?_⟩
      cases G.literalToDiscard state line.trimLineEnding with
      | none => exact .inl rfl
      | some length => exact .inr ⟨_, rfl⟩

/-! ## More bytes -/

/-- The reception with more bytes behind those that are there. -/
def extend (r : Reception γ) (more : Bytes) : Reception γ := { r with buffer := r.buffer ++ more }

/-- A report with more bytes behind those that are there. -/
def Report.extend (b : Report γ υ) (more : Bytes) : Report γ υ := (b.1, b.2.extend more)

/-- The grammar is asked about the fragment alone. -/
theorem parse_append (state : γ) (buffer bytes more : Bytes) (required : Nat) :
    parse G state (buffer ++ more) bytes required
      = (parse G state buffer bytes required).map (extend · more) (Report.extend · more) := by
  unfold parse
  split
  · rfl
  · rfl
  · split <;> rfl
  · rfl

/-- With more bytes there, a step does the same, unless it found too few or refused a line before
its end had come. -/
theorem step_extend {r : Reception γ} (hr : r.fragment.isKept) (more : Bytes) :
    step G (r.extend more) = (step G r).map (extend · more) (Report.extend · more)
      ∨ (∃ n, step G r = .inr (.ok (.needMore n), r))
      ∨ ∃ m n r' r'', step G r = .inr (.error m, r') ∧ step G (r.extend more) = .inr (.error n, r'')
        ∧ m.Alike n := by
  obtain ⟨state, fragment, buffer⟩ := r
  cases fragment with
  | discarding what => simp [Fragment.isKept] at hr
  | leftover bytes =>
    left
    exact parse_append state buffer bytes more 0
  | gathering bytes required =>
    show step G ⟨state, .gathering bytes required, buffer ++ more⟩ = _ ∨ _ ∨ ∃ m n r' r'', _ ∧
      step G ⟨state, .gathering bytes required, buffer ++ more⟩ = _ ∧ _
    have hlen : (buffer ++ more).length = buffer.length + more.length := List.length_append
    by_cases hwait : bytes.length < required
    · by_cases hthere : required - bytes.length ≤ buffer.length
      · left
        rw [step_literal hwait (by omega), step_literal hwait hthere,
          List.take_append_of_le_length hthere, List.drop_append_of_le_length hthere, parse_append]
      · right; left
        exact ⟨_, step_literal_short hwait (by omega)⟩
    · have hwait : required ≤ bytes.length := by omega
      rcases hline : buffer.splitLine? with _ | ⟨line, rest⟩
      · by_cases hlong : G.maxLineLength < buffer.length
        · right; right
          -- the line is refused by its beginning here, and perhaps as a whole there
          rcases hmore : (buffer ++ more).splitLine? with _ | ⟨line, rest⟩
          · exact ⟨_, _, _, _, step_line_overflow hwait hline hlong,
              step_line_overflow hwait hmore (by omega), .lineTooLong _ _⟩
          · have := Bytes.length_lt_of_splitLine?_append hline hmore
            exact ⟨_, _, _, _, step_line_overflow hwait hline hlong,
              step_line_long hwait hmore (by omega), .lineTooLong _ _⟩
        · right; left
          exact ⟨_, step_line_short hwait hline (by omega)⟩
      · left
        have hmore := Bytes.splitLine?_append hline more
        by_cases hlong : G.maxLineLength < line.length
        · rw [step_line_long hwait hline hlong, step_line_long hwait hmore hlong]
          rfl
        · rw [step_line hwait hline (by omega), step_line hwait hmore (by omega), parse_append]

/-! ## The grammar is asked -/

section
variable {g : γ} {bytes buffer : Bytes} {required : Nat}

/-- A unit that uses up the fragment leaves nothing behind. -/
theorem parse_of_complete {unit : υ} (h : (G.parse g bytes).2 = .ok (.complete unit [])) :
    parse G g buffer bytes required
      = .inr (.ok (.complete unit), { state := (G.parse g bytes).1, buffer }) := by
  rw [parse, ← Prod.eta (G.parse g bytes), h]
  rfl

theorem parse_of_line (h : (G.parse g bytes).2 = .ok (.incomplete .line)) :
    parse G g buffer bytes required
      = .inl ⟨(G.parse g bytes).1, .gathering bytes required, buffer⟩ := by
  rw [parse, ← Prod.eta (G.parse g bytes), h]

/-- A literal that goes beyond what was required is announced. -/
theorem parse_of_literal {missing : Nat} {synchronising : Bool}
    (h : (G.parse g bytes).2 = .ok (.incomplete (.literal missing synchronising)))
    (hmore : required < bytes.length + missing) :
    parse G g buffer bytes required = .inr (.ok (.continuing missing synchronising),
      ⟨(G.parse g bytes).1, .gathering bytes (bytes.length + missing), buffer⟩) := by
  rw [parse, ← Prod.eta (G.parse g bytes), h]
  simp only [if_pos hmore]

end

/-- What can come of asking the grammar. -/
inductive Asked (G : Grammar γ υ) (g : γ) (buffer bytes : Bytes) (required : Nat) :
    Reception γ ⊕ Report γ υ → Prop
  | complete {g' : γ} {unit : υ} {rest : Bytes}
    (h : G.parse g bytes = (g', .ok (.complete unit rest))) : Asked G g buffer bytes required
      (.inr (.ok (.complete unit),
        ⟨g', if rest.isEmpty then .empty else .leftover rest, buffer⟩))
  | incomplete {g' : γ} {needs : Needs} (h : G.parse g bytes = (g', .ok (.incomplete needs))) :
    Asked G g buffer bytes required (.inl ⟨g', .gathering bytes required, buffer⟩)
  | announced {g' : γ} {missing : Nat} {synchronising : Bool}
    (h : G.parse g bytes = (g', .ok (.incomplete (.literal missing synchronising))))
    (hmore : required < bytes.length + missing) : Asked G g buffer bytes required
      (.inr (.ok (.continuing missing synchronising),
        ⟨g', .gathering bytes (bytes.length + missing), buffer⟩))
  | refused {g' : γ} {report : Malformed} (h : G.parse g bytes = (g', .error report)) :
    Asked G g buffer bytes required (.inr (refuse G g' buffer report bytes))

theorem asked_parse (G : Grammar γ υ) (g : γ) (buffer bytes : Bytes) (required : Nat) :
    Asked G g buffer bytes required (parse G g buffer bytes required) := by
  unfold parse
  split
  · next h => exact .complete h
  · next h => exact .incomplete h
  · next h =>
    split
    · next hmore => exact .announced h hmore
    · exact .incomplete h
  · next h => exact .refused h

/-! ## Skipping begins with a refusal -/

theorem isKept_of_parse {state : γ} {buffer bytes : Bytes} {required : Nat} :
    (∀ r', parse G state buffer bytes required = .inl r' → r'.fragment.isKept)
      ∧ ∀ o r', parse G state buffer bytes required = .inr (.ok o, r') → r'.fragment.isKept := by
  have hasked := asked_parse G state buffer bytes required
  generalize parse G state buffer bytes required = b at hasked
  cases hasked with
  | @complete g' unit rest =>
    refine ⟨by simp, fun o r' h => ?_⟩
    obtain ⟨-, rfl⟩ := Prod.mk.inj (Sum.inr.inj h)
    cases rest <;> rfl
  | incomplete =>
    refine ⟨fun r' h => ?_, by simp⟩
    obtain rfl := Sum.inl.inj h
    rfl
  | announced =>
    refine ⟨by simp, fun o r' h => ?_⟩
    obtain ⟨-, rfl⟩ := Prod.mk.inj (Sum.inr.inj h)
    rfl
  | refused => exact ⟨by simp, by simp [refuse]⟩

theorem parse_ne_needMore {state : γ} {buffer bytes : Bytes} {required n : Nat} {r' : Reception γ} :
    parse G state buffer bytes required ≠ .inr (.ok (.needMore n), r') := by
  have hasked := asked_parse G state buffer bytes required
  generalize parse G state buffer bytes required = b at hasked
  cases hasked <;> simp [refuse]

/-- What is skipped after a refusal is what the last line announces. -/
theorem recovery_of_lastLine? {raw content : Bytes} (h : raw.lastLine? = some content) (g : γ) :
    recovery G g raw
      = (G.literalToDiscard g content).elim .empty fun n => .discarding (.literal n) := by
  rw [recovery, h, Option.bind_some]
  cases G.literalToDiscard g content <;> rfl

/-- Where too few bytes are there, everything stays as it is. -/
theorem eq_of_step_needMore {r r' : Reception γ} {n : Nat} (hr : r.fragment.isKept)
    (h : step G r = .inr (.ok (.needMore n), r')) : r' = r := by
  obtain ⟨state, fragment, buffer⟩ := r
  cases fragment with
  | discarding what => simp [Fragment.isKept] at hr
  | leftover bytes => exact absurd h parse_ne_needMore
  | gathering bytes required =>
    have hcases := gatheringStep_step G state bytes required buffer
    rw [h] at hcases
    generalize hb : (Sum.inr (.ok (.needMore n), r') : Reception γ ⊕ Report γ υ) = b at hcases
    cases hcases with
    | takes => exact absurd hb.symm parse_ne_needMore
    | needMore => exact (Prod.mk.inj (Sum.inr.inj hb)).2
    | long => simp [refuse] at hb
    | overflow => simp at hb

/-- A step that finds too few bytes finds too few again. -/
theorem step_of_needMore {r r' : Reception γ} {n : Nat}
    (h : step G r = .inr (.ok (.needMore n), r')) : step G r' = .inr (.ok (.needMore n), r') := by
  by_cases hkept : r.fragment.isKept
  · rwa [← eq_of_step_needMore hkept h] at h
  · obtain ⟨state, fragment, buffer⟩ := r
    cases fragment with
    | gathering bytes required => exact absurd rfl hkept
    | leftover bytes => exact absurd rfl hkept
    | discarding what =>
      cases what with
      | literal length =>
        by_cases hthere : length ≤ buffer.length
        · simp [step, hthere] at h
        · have hshort : buffer.length < length := Nat.lt_of_not_le hthere
          rw [step_skip_literal_short state hshort] at h
          obtain ⟨rfl, rfl⟩ := by simpa only [Sum.inr.injEq, Prod.mk.injEq, Except.ok.injEq,
            Outcome.needMore.injEq] using h
          exact step_skip_literal_short state (Nat.sub_pos_of_lt hshort)
      | line =>
        rcases hline : buffer.splitLine? with _ | ⟨line, rest⟩
        · rw [step_skip_line_short state hline] at h
          obtain ⟨rfl, rfl⟩ := by simpa only [Sum.inr.injEq, Prod.mk.injEq, Except.ok.injEq,
            Outcome.needMore.injEq] using h
          exact step_skip_line_short state rfl
        · obtain ⟨hisLine, rfl⟩ := Bytes.splitLine?_eq_some_iff.1 hline
          rw [step_skip_line state hisLine] at h
          cases h

/-- As long as nothing is refused, nothing is skipped. -/
theorem isKept_of_step {r : Reception γ} (hr : r.fragment.isKept) :
    (∀ r', step G r = .inl r' → r'.fragment.isKept)
      ∧ ∀ o r', step G r = .inr (.ok o, r') → r'.fragment.isKept := by
  obtain ⟨state, fragment, buffer⟩ := r
  cases fragment with
  | discarding what => simp [Fragment.isKept] at hr
  | leftover bytes => exact isKept_of_parse
  | gathering bytes required =>
    have hcases := gatheringStep_step G state bytes required buffer
    generalize step G ⟨state, .gathering bytes required, buffer⟩ = b at hcases
    cases hcases with
    | takes => exact isKept_of_parse
    | needMore n =>
      refine ⟨by simp, ?_⟩
      intro o r' h
      obtain ⟨-, rfl⟩ := Prod.mk.inj (Sum.inr.inj h)
      exact hr
    | long => exact ⟨by simp, by simp [refuse]⟩
    | overflow => exact ⟨by simp, by simp⟩

/-! ## A literal has been announced -/

theorem isContinuing_of_parse {state : γ} {buffer bytes : Bytes} {required missing : Nat}
    {goAhead : Bool} {r' : Reception γ}
    (h : parse G state buffer bytes required = .inr (.ok (.continuing missing goAhead), r')) :
    r'.fragment.isContinuing := by
  have hasked := asked_parse G state buffer bytes required
  rw [h] at hasked
  cases hasked with
  | announced _ hmore =>
    rw [Fragment.isContinuing, Fragment.required, decide_eq_true_eq]
    omega

/-- A literal that is reported is being waited for. -/
theorem isContinuing_of_step {r r' : Reception γ} {missing : Nat} {goAhead : Bool}
    (h : step G r = .inr (.ok (.continuing missing goAhead), r')) : r'.fragment.isContinuing := by
  obtain ⟨state, fragment, buffer⟩ := r
  cases fragment with
  | leftover bytes => exact isContinuing_of_parse h
  | gathering bytes required =>
    have hcases := gatheringStep_step G state bytes required buffer
    generalize hb : step G ⟨state, .gathering bytes required, buffer⟩ = b at hcases h
    cases hcases with
    | takes => exact isContinuing_of_parse h
    | needMore | long | overflow => cases h
  | discarding what =>
    rcases step_skip_cases (G := G) state what buffer with ⟨f, rest, heq, -⟩ | ⟨n, what', heq⟩
    all_goals
      rw [heq] at h
      cases h

end Reception

end MailProtocol
