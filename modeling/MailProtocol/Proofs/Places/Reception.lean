import MailProtocol.Proofs.Places.Command
import MailProtocol.Proofs.Places.Pop3
import MailProtocol.Proofs.Places.Response
import MailProtocol.Proofs.Reception.Cuts

/-!
# Receiving by places

A receiver that works by places cuts lines and literals out of the buffer at places it has counted,
and counts off what is missing: of a literal that is announced, of one that is awaited, and of one
that is skipped. None of these differences falls below zero, and no cut misses what is there
(`Reception.comes_stepAt`, `Reception.comes_advanceAt`).

So for every grammar, in every state and on every stream, receiving by places comes to what the
receiver reports. Nothing can stop it but the length of a literal that does not fit behind the
fragment that announces it (`safe_grammars`).
-/

namespace MailProtocol

variable {γ υ : Type} {G : Grammar γ υ}

namespace Reception

/-! ## The fragments that the grammar is asked about -/

/-- The fragment that one step asks the grammar about, if it asks. -/
def asked? (G : Grammar γ υ) (r : Reception γ) : Option Bytes :=
  match r.fragment with
  | .discarding _ => none
  | .leftover bytes => some bytes
  | .gathering bytes required =>
    if bytes.length < required then
      let missing := required - bytes.length
      if missing ≤ r.buffer.length then some (bytes ++ r.buffer.take missing) else none
    else match r.buffer.splitLine? with
      | some (line, _) => if G.maxLineLength < line.length then none else some (bytes ++ line)
      | none => none

/-- The grammar is asked about a fragment on the way to the next report. -/
inductive Asks (G : Grammar γ υ) : Reception γ → Bytes → Prop
  | now {r : Reception γ} {fragment : Bytes} (h : asked? G r = some fragment) : Asks G r fragment
  | later {r r' : Reception γ} {fragment : Bytes} (hstep : step G r = .inl r')
    (h : Asks G r' fragment) : Asks G r fragment

variable (P : G.Places)

/-! ## Steps -/

/-- Refuse `raw`. -/
def refuseAt (G : Grammar γ υ) (state : γ) (buffer : Bytes) (report : Malformed) (raw : Bytes) :
    Except Trap (Report γ υ) := do
  let line ← raw.lastLineAt
  let fragment := match line.bind (G.literalToDiscard state) with
    | some length => .discarding (.literal length)
    | none => .empty
  return (.error { report with raw }, { state, buffer, fragment })

/-- Ask the grammar about the fragment `bytes`. -/
def askAt (state : γ) (buffer bytes : Bytes) (required : Nat) :
    Except Trap (Reception γ ⊕ Report γ υ) := do
  match ← P.parseAt state bytes with
  | (state, .ok (.complete unit consumed)) =>
    if consumed < bytes.length then
      let rest ← bytes.partFrom consumed
      return .inr (.ok (.complete unit), { state, buffer, fragment := .leftover rest })
    else return .inr (.ok (.complete unit), { state, buffer })
  | (state, .ok (.incomplete .line)) =>
    return .inl { state, buffer, fragment := .gathering bytes required }
  | (state, .ok (.incomplete (.literal requiredAtLeast synchronising))) =>
    if required < requiredAtLeast then
      let missing ← Trap.sub requiredAtLeast bytes.length
      return .inr (.ok (.continuing missing synchronising),
        { state, buffer, fragment := .gathering bytes requiredAtLeast })
    else return .inl { state, buffer, fragment := .gathering bytes required }
  | (state, .error report) => return .inr (← refuseAt G state buffer report bytes)

/-- Skip what is there of a literal. -/
def skipAt (r : Reception γ) (remaining : Nat) : Except Trap (Reception γ ⊕ Report γ υ) := do
  let skipped := min remaining r.buffer.length
  let buffer ← r.buffer.partFrom skipped
  if skipped = remaining then return .inl { r with buffer, fragment := .discarding .line }
  else if skipped = 0 then return .inr (.ok (.needMore remaining), { r with buffer })
  else
    let remaining ← Trap.sub remaining skipped
    return .inl { r with buffer, fragment := .discarding (.literal remaining) }

/-- One step. -/
def stepAt (r : Reception γ) : Except Trap (Reception γ ⊕ Report γ υ) :=
  match r.fragment with
  | .discarding (.literal remaining) => skipAt r remaining
  | .discarding .line => do
    match ← r.buffer.takeLine with
    | none => return .inr (.ok (.needMore 1), { r with buffer := [] })
    | some (line, rest) =>
      match G.literalToDiscard r.state (← line.trimAt) with
      | some length =>
        return .inl { r with fragment := .discarding (.literal length), buffer := rest }
      | none => return .inl { r with fragment := .empty, buffer := rest }
  | .leftover bytes => askAt P r.state r.buffer bytes 0
  | .gathering bytes required =>
    if bytes.length < required then do
      let missing ← Trap.sub required bytes.length
      match ← r.buffer.takeExact missing with
      | some (data, rest) => askAt P r.state rest (bytes ++ data) required
      | none => return .inr (.ok (.needMore (← Trap.sub missing r.buffer.length)), r)
    else do
      match ← r.buffer.takeLine with
      | some (line, rest) =>
        if G.maxLineLength < line.length then
          return .inr (← refuseAt G r.state rest { fault := .lineTooLong } line)
        else askAt P r.state rest (bytes ++ line) required
      | none =>
        if G.maxLineLength < r.buffer.length then
          return .inr (.error { fault := .lineTooLong, raw := droppedNote r.buffer.length },
            { r with fragment := .discarding .line, buffer := [] })
        else return .inr (.ok (.needMore 1), r)

/-- Take steps until there is something to report. -/
def advanceAt (r : Reception γ) : Except Trap (Report γ υ) := do
  match ← stepAt P r with
  | .inr b => return b
  | .inl r' =>
    -- every step makes the reception smaller, which only the step shows
    if _h : r'.size < r.size then advanceAt r' else throw .stuck
termination_by r.size

variable {P}

theorem refuseAt_eq (state : γ) (buffer : Bytes) (report : Malformed) (raw : Bytes) :
    refuseAt (υ := υ) G state buffer report raw = .ok (refuse G state buffer report raw) := by
  unfold refuseAt
  rw [Bytes.lastLineAt_eq]
  rfl

/-- What the grammar leaves of a fragment begins at the place it has come to. -/
theorem comes_askAt (hG : G.Lawful) (hP : P.Reads) (state : γ) (buffer bytes : Bytes)
    (required : Nat) : Comes (P.Fits bytes) (askAt P state buffer bytes required)
      (parse G state buffer bytes required) := by
  unfold askAt parse
  refine (hP state bytes).bind ?_
  rcases hparse : G.parse state bytes with ⟨g, report | ⟨unit, rest⟩ | _ | ⟨missing, synchronising⟩⟩
  · show Comes _ (refuseAt G g buffer report bytes >>= _) _
    rw [refuseAt_eq]
    exact .pure _
  · -- a unit ends inside of the fragment, and leaves less than there was
    have hrest := At.of_suffix (hG.suffix hparse)
    show Comes _ (if bytes.length - rest.length < bytes.length then _ else _) _
    by_cases hempty : rest.isEmpty
    · have hlength := List.isEmpty_iff_length_eq_zero.1 hempty
      rw [if_neg (by omega)]
      simp only [if_pos hempty]
      exact .pure _
    · have hlength := mt List.isEmpty_iff_length_eq_zero.2 hempty
      have hshort := hG.length_lt hparse
      rw [if_pos (by omega), hrest.partFrom_eq]
      simp only [if_neg hempty]
      exact .pure _
  · exact .pure _
  · show Comes _ (if required < bytes.length + missing then _ else _)
      (if required < bytes.length + missing then _ else _)
    by_cases hmore : required < bytes.length + missing
    · rw [if_pos hmore, if_pos hmore, Trap.sub_eq_ok (Nat.le_add_right _ _),
        Nat.add_sub_cancel_left]
      exact .pure _
    · rw [if_neg hmore, if_neg hmore]
      exact .pure _

section
variable {state : γ} {buffer : Bytes} {n : Nat}

/-- A literal that is there is skipped, and one of which nothing is there is waited for. -/
theorem skipAt_eq (h : n ≤ buffer.length ∨ buffer = []) :
    skipAt ⟨state, .discarding (.literal n), buffer⟩ n
      = .ok (step G ⟨state, .discarding (.literal n), buffer⟩) := by
  unfold skipAt
  simp only
  by_cases hthere : n ≤ buffer.length
  · rw [Nat.min_eq_left hthere, Bytes.partFrom_le hthere]
    show (if n = n then _ else _) = _
    rw [if_pos rfl]
    simp only [step, if_pos hthere]
    rfl
  · obtain rfl := h.resolve_left hthere
    have hpos : 0 ≠ n := fun he => hthere (he ▸ Nat.zero_le _)
    rw [List.length_nil, Nat.min_zero, Bytes.partFrom_le (Nat.zero_le _)]
    show (if 0 = n then _ else _) = _
    rw [if_neg hpos, if_pos rfl, step_skip_literal_short state (Nat.lt_of_not_le hthere)]
    rfl

/-- Of a literal that is there in part, the part is skipped. -/
theorem skipAt_part (hne : buffer ≠ []) (hshort : buffer.length < n) :
    skipAt (υ := υ) ⟨state, .discarding (.literal n), buffer⟩ n
      = .ok (.inl ⟨state, .discarding (.literal (n - buffer.length)), []⟩) := by
  have hpos := List.length_pos_iff.2 hne
  have hdrop : buffer.drop buffer.length = [] := List.drop_length
  unfold skipAt
  simp only
  rw [Nat.min_eq_right (Nat.le_of_lt hshort), Bytes.partFrom_le (Nat.le_refl _), hdrop]
  show (if buffer.length = n then _ else if buffer.length = 0 then _ else _) = _
  rw [if_neg (Nat.ne_of_lt hshort), if_neg (Nat.ne_of_gt hpos),
    Trap.sub_eq_ok (Nat.le_of_lt hshort)]
  rfl

end

/-- While a literal is awaited a step by places comes to what a step does. -/
theorem comes_stepAt_literal (hG : G.Lawful) (hP : P.Reads) (state : γ) (buffer : Bytes)
    {bytes : Bytes} {required : Nat} (hwait : bytes.length < required) :
    Comes (∀ fragment, asked? G ⟨state, .gathering bytes required, buffer⟩ = some fragment →
        P.Fits fragment)
      (stepAt P ⟨state, .gathering bytes required, buffer⟩)
      (step G ⟨state, .gathering bytes required, buffer⟩) := by
  unfold stepAt
  simp only
  rw [if_pos hwait, Trap.sub_eq_ok (Nat.le_of_lt hwait)]
  show Comes _ (buffer.takeExact (required - bytes.length) >>= _) _
  rw [Bytes.takeExact_eq]
  by_cases hthere : required - bytes.length ≤ buffer.length
  · rw [if_pos hthere, step_literal hwait hthere]
    refine (comes_askAt hG hP state _ _ required).mono fun h => h _ ?_
    simp only [asked?, if_pos hwait, if_pos hthere]
  · have hshort : buffer.length < required - bytes.length := Nat.lt_of_not_le hthere
    rw [if_neg hthere, step_literal_short hwait hshort]
    show Comes _ (Trap.sub (required - bytes.length) buffer.length >>= _) _
    rw [Trap.sub_eq_ok (Nat.le_of_lt hshort)]
    exact .pure _

/-- While a line is awaited a step by places comes to what a step does. -/
theorem comes_stepAt_line (hG : G.Lawful) (hP : P.Reads) (state : γ) (buffer : Bytes)
    {bytes : Bytes} {required : Nat} (hwait : required ≤ bytes.length) :
    Comes (∀ fragment, asked? G ⟨state, .gathering bytes required, buffer⟩ = some fragment →
        P.Fits fragment)
      (stepAt P ⟨state, .gathering bytes required, buffer⟩)
      (step G ⟨state, .gathering bytes required, buffer⟩) := by
  unfold stepAt
  simp only
  rw [if_neg (Nat.not_lt.2 hwait)]
  show Comes _ (buffer.takeLine >>= _) _
  rw [Bytes.takeLine_eq]
  rcases hline : buffer.splitLine? with _ | ⟨line, rest⟩
  · show Comes _ (if G.maxLineLength < buffer.length then _ else _) _
    by_cases hlong : G.maxLineLength < buffer.length
    · rw [if_pos hlong, step_line_overflow hwait hline hlong]
      exact .pure _
    · rw [if_neg hlong, step_line_short hwait hline (Nat.le_of_not_lt hlong)]
      exact .pure _
  · show Comes _ (if G.maxLineLength < line.length then _ else _) _
    by_cases hlong : G.maxLineLength < line.length
    · rw [if_pos hlong, refuseAt_eq, step_line_long hwait hline hlong]
      exact .pure _
    · rw [if_neg hlong, step_line hwait hline (Nat.le_of_not_lt hlong)]
      refine (comes_askAt hG hP state rest (bytes ++ line) required).mono fun h => h _ ?_
      simp only [asked?, if_neg (Nat.not_lt.2 hwait), hline, if_neg hlong]

/-- While the rest of a line is skipped a step by places comes to what a step does. -/
theorem stepAt_skip_line (state : γ) (buffer : Bytes) :
    stepAt P ⟨state, .discarding .line, buffer⟩
      = .ok (step G ⟨state, .discarding .line, buffer⟩) := by
  show buffer.takeLine >>= _ = _
  rw [Bytes.takeLine_eq]
  rcases hsplit : buffer.splitLine? with _ | ⟨line, rest⟩
  · rw [step_skip_line_short state hsplit]
    rfl
  · obtain ⟨hline, rfl⟩ := Bytes.splitLine?_eq_some_iff.1 hsplit
    show line.trimAt >>= _ = _
    rw [Bytes.trimAt_eq, step_skip_line state hline]
    show (match G.literalToDiscard state line.trimLineEnding with
      | some length => _
      | none => _) = _
    cases G.literalToDiscard state line.trimLineEnding <;> rfl

/-- Where no literal to be skipped is there in part, a step by places comes to what a step does. -/
theorem comes_stepAt (hG : G.Lawful) (hP : P.Reads) (r : Reception γ)
    (hpart : ∀ n, r.fragment = .discarding (.literal n) → n ≤ r.buffer.length ∨ r.buffer = []) :
    Comes (∀ fragment, asked? G r = some fragment → P.Fits fragment) (stepAt P r) (step G r) := by
  obtain ⟨state, fragment, buffer⟩ := r
  rcases fragment with ⟨bytes, required⟩ | bytes | n | _
  · rcases Nat.lt_or_ge bytes.length required with hwait | hwait
    · exact comes_stepAt_literal hG hP state buffer hwait
    · exact comes_stepAt_line hG hP state buffer hwait
  · exact (comes_askAt hG hP state buffer bytes 0).mono fun h => h bytes rfl
  · exact .of_eq (skipAt_eq (hpart n rfl))
  · exact .of_eq (stepAt_skip_line state buffer)

/-! ## Reports -/

/-- The report that comes of a step by places. -/
theorem advanceAt_of_report {r : Reception γ} {b : Report γ υ} (h : stepAt P r = .ok (.inr b)) :
    advanceAt P r = .ok b := by
  rw [advanceAt, h]
  rfl

/-- A step by places that leads on makes the reception smaller. -/
theorem advanceAt_of_step {r r' : Reception γ} (h : stepAt P r = .ok (.inl r'))
    (hsize : r'.size < r.size) : advanceAt P r = advanceAt P r' := by
  rw [advanceAt, h]
  show (if _h : r'.size < r.size then _ else _) = _
  rw [dif_pos hsize]

/-- A literal that is there in part is skipped in two steps by places where one step does it. -/
theorem advanceAt_skip_part (state : γ) {buffer : Bytes} {n : Nat} (hne : buffer ≠ [])
    (hshort : buffer.length < n) : advanceAt P ⟨state, .discarding (.literal n), buffer⟩
      = .ok (advance G ⟨state, .discarding (.literal n), buffer⟩) := by
  have hpos : 0 < n - buffer.length := Nat.sub_pos_of_lt hshort
  have hsecond : stepAt P ⟨state, .discarding (.literal (n - buffer.length)), []⟩ = .ok
      (.inr (.ok (.needMore (n - buffer.length)),
        ⟨state, .discarding (.literal (n - buffer.length)), []⟩)) := by
    show skipAt ⟨state, .discarding (.literal (n - buffer.length)), []⟩ _ = _
    rw [skipAt_eq (G := G) (.inr rfl), step_skip_literal_short state hpos]
    rfl
  have hsize : Reception.size ⟨state, .discarding (.literal (n - buffer.length)), []⟩
      < Reception.size ⟨state, .discarding (.literal n), buffer⟩ := by
    have := List.length_pos_iff.2 hne
    simp only [size, Fragment.weight, List.length_nil]
    omega
  have hfirst : stepAt P ⟨state, .discarding (.literal n), buffer⟩
      = .ok (.inl ⟨state, .discarding (.literal (n - buffer.length)), []⟩) :=
    skipAt_part hne hshort
  rw [advanceAt_of_step hfirst hsize, advanceAt_of_report hsecond,
    advance_of_report (step_skip_literal_short state hshort)]

/-- Taking steps by places comes to the report. -/
theorem comes_advanceAt (hG : G.Lawful) (hP : P.Reads) (r : Reception γ) :
    Comes (∀ fragment, Asks G r fragment → P.Fits fragment) (advanceAt P r) (advance G r) := by
  -- only where a literal is there in part do two steps stand for one
  by_cases hpart : ∃ n, r.fragment = .discarding (.literal n) ∧ r.buffer ≠ [] ∧ r.buffer.length < n
  · obtain ⟨state, fragment, buffer⟩ := r
    obtain ⟨n, rfl, hne, hshort⟩ := hpart
    exact .of_eq (advanceAt_skip_part state hne hshort)
  · have hwhole (n : Nat) (hn : r.fragment = .discarding (.literal n)) :
        n ≤ r.buffer.length ∨ r.buffer = [] := by
      by_contra hnot
      rw [not_or, Nat.not_le] at hnot
      exact hpart ⟨n, hn, hnot.2, hnot.1⟩
    have hnow (hfits : ∀ fragment, Asks G r fragment → P.Fits fragment) (fragment : Bytes)
        (hasked : asked? G r = some fragment) : P.Fits fragment := hfits fragment (.now hasked)
    rw [advanceAt]
    refine ((comes_stepAt hG hP r hwhole).mono hnow).bind ?_
    rcases hresult : step G r with r' | b
    · have hsize := size_of_step hresult
      show Comes _ (if _h : r'.size < r.size then _ else _) _
      rw [dif_pos hsize, advance_of_step hresult]
      refine (comes_advanceAt hG hP r').mono fun hfits fragment hasked => ?_
      exact hfits fragment (.later hresult hasked)
    · rw [advance_of_report hresult]
      exact .pure b
termination_by r.size

/-- What the grammar is asked about is no longer than what is there. -/
theorem length_le_of_asks {r : Reception γ} {fragment : Bytes} (h : Asks G r fragment) :
    fragment.length ≤ r.fragment.bytes.length + r.buffer.length := by
  -- no step brings bytes, but one settles what has a weight
  suffices hle : 2 * fragment.length ≤ r.total by
    have hweight : r.fragment.weight ≤ 1 := by
      rcases r.fragment with _ | _ | _ | _ <;> simp [Fragment.weight]
    rw [total] at hle
    omega
  induction h with
  | @now r fragment h =>
    obtain ⟨state, gathered, buffer⟩ := r
    rcases gathered with ⟨bytes, required⟩ | bytes | what
    · simp only [asked?] at h
      split at h
      · split at h
        · obtain rfl := Option.some.inj h
          simp only [total, Fragment.bytes, List.length_append, List.length_take]
          omega
        · cases h
      · split at h
        · next line rest hline =>
          have := Bytes.length_of_splitLine? hline
          split at h
          · cases h
          · obtain rfl := Option.some.inj h
            simp only [total, Fragment.bytes, List.length_append]
            omega
        · cases h
    · obtain rfl := Option.some.inj h
      simp only [total, Fragment.bytes]
      omega
    · cases h
  | @later r r' fragment hstep _ ih =>
    have hshrinks := shrinks_step (G := G) r
    rw [hstep] at hshrinks
    exact Nat.le_trans ih hshrinks.2

end Reception

/-! ## Receivers -/

/-- A receiver with its transport. -/
abbrev Receiving (γ : Type) := Receiver γ × Transport

namespace Receiver

/-- The reports of a receiver that is asked once before each of `moves`. A move is what happens
between two reports: a read of the stream, an upgrade, a reset, or anything else. -/
def run (G : Grammar γ υ) : List (Receiving γ → Receiving γ) → Receiving γ →
    List (Except Malformed (Outcome υ)) × Receiving γ
  | [], x => ([], x)
  | move :: moves, x =>
    let (result, x) := x.1.receive G x.2
    let (results, x) := run G moves (move x)
    (result :: results, x)

/-- The grammar is asked about a fragment in the course of a run. -/
inductive Asks (G : Grammar γ υ) :
    List (Receiving γ → Receiving γ) → Receiving γ → Bytes → Prop
  | now {move : Receiving γ → Receiving γ} {moves : List (Receiving γ → Receiving γ)}
    {x : Receiving γ} {fragment : Bytes} (h : Reception.Asks G (x.1.reception x.2) fragment) :
    Asks G (move :: moves) x fragment
  | later {move : Receiving γ → Receiving γ} {moves : List (Receiving γ → Receiving γ)}
    {x : Receiving γ} {fragment : Bytes} (h : Asks G moves (move (x.1.receive G x.2).2) fragment) :
    Asks G (move :: moves) x fragment

end Receiver

namespace Grammar.Places

variable (P : G.Places)

/-- Report once from what the transport has buffered. -/
def receive (r : Receiver γ) (t : Transport) :
    Except Trap (Except Malformed (Outcome υ) × Receiving γ) := do
  let (result, out) ← Reception.advanceAt P (r.reception t)
  return (result, .ofReception out, { t with buffer := out.buffer })

/-- The reports of a receiver that is asked once before each of `moves`. -/
def run : List (Receiving γ → Receiving γ) → Receiving γ →
    Except Trap (List (Except Malformed (Outcome υ)) × Receiving γ)
  | [], x => return ([], x)
  | move :: moves, x => do
    let (result, x) ← receive P x.1 x.2
    let (results, x) ← run moves (move x)
    return (result :: results, x)

variable {P}

theorem comes_receive (hG : G.Lawful) (hP : P.Reads) (r : Receiver γ) (t : Transport) :
    Comes (∀ fragment, Reception.Asks G (r.reception t) fragment → P.Fits fragment)
      (P.receive r t) (r.receive G t) :=
  (Reception.comes_advanceAt hG hP (r.reception t)).bind (.pure _)

/-- Where the fragment and the buffer leave room for a literal, a receiver that works by places
gives its report. -/
theorem receive_eq (hG : G.Lawful) (hP : P.Reads) {r : Receiver γ} {t : Transport}
    (hroom : ∀ m ∈ P.maxLiteral, r.fragment.bytes.length + t.buffer.length + m < UInt64.size) :
    P.receive r t = .ok (r.receive G t) := by
  refine (comes_receive hG hP r t).eq fun fragment hasked m hm => ?_
  have hlength := Reception.length_le_of_asks hasked
  have := hroom m hm
  simp only [Receiver.reception] at hlength
  omega

/-- Report by report a run by places comes to what the receiver does. -/
theorem comes_run (hG : G.Lawful) (hP : P.Reads) (moves : List (Receiving γ → Receiving γ))
    (x : Receiving γ) :
    Comes (∀ fragment, Receiver.Asks G moves x fragment → P.Fits fragment)
      (P.run moves x) (Receiver.run G moves x) := by
  induction moves generalizing x with
  | nil => exact .pure _
  | cons move moves ih =>
    have hfirst := (comes_receive hG hP x.1 x.2).mono
      fun (hfits : ∀ fragment, Receiver.Asks G (move :: moves) x fragment → P.Fits fragment)
        fragment hasked => hfits fragment (.now hasked)
    have hothers := (ih (move (x.1.receive G x.2).2)).mono
      fun (hfits : ∀ fragment, Receiver.Asks G (move :: moves) x fragment → P.Fits fragment)
        fragment hasked => hfits fragment (.later hasked)
    exact hfirst.bind (hothers.bind (.pure _))

/-- Whatever arrives, reading by places comes to what the grammar answers and the receiver reports.
Nothing can stop it but the sum of the length of a fragment and that of a literal behind it, and
that only if the longest literal does not fit. -/
structure Safe (P : G.Places) : Prop where
  parse : ∀ (g : γ) (fragment : Bytes),
    Comes (P.Fits fragment) (P.parseAt g fragment) (placed fragment (G.parse g fragment))
  receive : ∀ (r : Receiver γ) (t : Transport),
    Comes (∀ fragment, Reception.Asks G (r.reception t) fragment → P.Fits fragment)
      (P.receive r t) (r.receive G t)
  /-- Nothing stops a receiver while the fragment and the buffer leave room for a literal. -/
  room : ∀ (r : Receiver γ) (t : Transport),
    (∀ m ∈ P.maxLiteral, r.fragment.bytes.length + t.buffer.length + m < UInt64.size) →
      P.receive r t = .ok (r.receive G t)
  run : ∀ (moves : List (Receiving γ → Receiving γ)) (x : Receiving γ),
    Comes (∀ fragment, Receiver.Asks G moves x fragment → P.Fits fragment)
      (P.run moves x) (Receiver.run G moves x)

theorem Reads.safe (hP : P.Reads) (hG : G.Lawful) : P.Safe where
  parse := hP
  receive := comes_receive hG hP
  room _ _ := receive_eq hG hP
  run := comes_run hG hP

end Grammar.Places

/-- No input stops any of the four grammars or a receiver over it, in any configuration: no part
that is cut out is missing, no difference falls below zero, and no sum is too large as long as the
longest literal fits behind the fragment. -/
theorem safe_grammars (config : Config) :
    (Imap.Command.places config).Safe ∧ (Imap.Response.places config).Safe
      ∧ (Pop3.Command.places config).Safe ∧ (Pop3.Response.places config).Safe :=
  ⟨(Imap.Command.reads_places config).safe (Imap.Command.lawful_grammar config),
    (Imap.Response.reads_places config).safe (Imap.Response.lawful_grammar config),
    (Pop3.Command.reads_places config).safe (Pop3.Command.lawful_grammar config),
    (Pop3.Response.reads_places config).safe (Pop3.Response.lawful_grammar config)⟩

/-- Where the longest literal does not fit behind a fragment, announcing it stops the reading. -/
example : (Imap.Command.places { limits := { maxLiteralLength := UInt64.size - 1 } }).parseAt ()
    (Bytes.ascii "a b \x7b18446744073709551615\x7d\r\n") = .error .overflow := by
  decide +kernel

end MailProtocol
