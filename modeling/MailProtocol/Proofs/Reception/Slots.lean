import MailProtocol.Proofs.Reception.Limits

/-!
# A receive loop with slots

A fragment says where a reception stands, and what it says cannot contradict itself. A receive loop
may as well keep this in slots that are set one by one: the bytes gathered, how many there must be
before the grammar is asked again, whether a literal has been announced, whether the bytes are left
over from the last unit, and what is to be skipped. `ReceiveLoop.round` is one round of such a loop,
whatever combination of slots it is given.

A fragment sets the slots (`Fragment.slots`). From there the loop reports what the reception does,
and sets the slots as the fragment does that the reception comes to (`ReceiveLoop.advance_loop`). So
a receiver that keeps slots does as the receiver does that keeps a fragment
(`SlotReceiver.reached_iff`, `SlotReceiver.receive_slotted`).
-/

namespace MailProtocol

variable {γ υ : Type} {G : Grammar γ υ}

/-- What is known between two calls. -/
structure Slots where
  /-- The bytes gathered. -/
  bytes : Bytes := []
  /-- The grammar is not asked again before there are so many bytes. -/
  required : Nat := 0
  /-- A literal of the unit has been announced. -/
  continuing : Bool := false
  /-- The bytes have come after the last unit, and the grammar has not been asked about them. -/
  leftover : Bool := false
  /-- What is to be skipped. -/
  discard : Option Discard := none
deriving DecidableEq, Repr

/-- The slots as a fragment sets them. -/
def Fragment.slots : Fragment → Slots
  | .gathering bytes required => { bytes, required, continuing := 0 < required }
  | .leftover bytes => { bytes, leftover := true }
  | .discarding what => { discard := some what }

theorem Fragment.continuing_slots (f : Fragment) : f.slots.continuing = f.isContinuing := by
  cases f <;> rfl

/-- The state of the grammar, the slots, and the bytes that are there to be used. -/
structure ReceiveLoop (γ : Type) where
  state : γ
  slots : Slots
  buffer : Bytes
deriving DecidableEq, Repr

/-- The loop that stands where the reception stands. -/
def Reception.loop (r : Reception γ) : ReceiveLoop γ := ⟨r.state, r.fragment.slots, r.buffer⟩

/-- A report, with the loop that stands where the reception stands after it. -/
def Reception.Report.loop (b : Reception.Report γ υ) :
    Except Malformed (Outcome υ) × ReceiveLoop γ := (b.1, b.2.loop)

namespace ReceiveLoop

/-- A report, and the loop after it. -/
abbrev Report (γ υ : Type) := Except Malformed (Outcome υ) × ReceiveLoop γ

variable (G)

/-- Refuse `raw`: of what was known only what is to be skipped is left. -/
def fail (state : γ) (buffer : Bytes) (report : Malformed) (raw : Bytes) : Report γ υ :=
  let discard := (raw.lastLine?.bind (G.literalToDiscard state)).map Discard.literal
  (.error { report with raw }, { state, buffer, slots := { discard } })

/-- Ask the grammar about the bytes gathered. -/
def ask (l : ReceiveLoop γ) : ReceiveLoop γ ⊕ Report γ υ :=
  match G.parse l.state l.slots.bytes with
  | (state, .ok (.complete unit rest)) =>
    let slots := { l.slots with
      bytes := rest, required := 0, continuing := false
      leftover := l.slots.leftover || !rest.isEmpty }
    .inr (.ok (.complete unit), { l with state, slots })
  | (state, .ok (.incomplete .line)) => .inl { l with state }
  | (state, .ok (.incomplete (.literal missing synchronising))) =>
    let required := l.slots.bytes.length + missing
    if l.slots.required < required then
      let slots := { l.slots with required, continuing := true }
      .inr (.ok (.continuing missing synchronising), { l with state, slots })
    else .inl { l with state }
  | (state, .error report) => .inr (fail G state l.buffer report l.slots.bytes)

/-- Go on with what is to be skipped. -/
def skip (l : ReceiveLoop γ) : Discard → ReceiveLoop γ ⊕ Report γ υ
  | .literal length =>
    let skipped := min length l.buffer.length
    let buffer := l.buffer.drop length
    if skipped = length then
      .inl { l with buffer, slots := { l.slots with discard := some .line } }
    else if skipped = 0 then .inr (.ok (.needMore length), { l with buffer })
    else
      let discard := some (.literal (length - skipped))
      .inl { l with buffer, slots := { l.slots with discard } }
  | .line =>
    match l.buffer.splitLine? with
    | none => .inr (.ok (.needMore 1), { l with buffer := [] })
    | some (line, buffer) =>
      let discard := (G.literalToDiscard l.state line.trimLineEnding).map Discard.literal
      .inl { l with buffer, slots := { l.slots with discard } }

/-- Gather what is missing of a literal, or a line, or what is left over, and ask the grammar. -/
def gather (l : ReceiveLoop γ) : ReceiveLoop γ ⊕ Report γ υ :=
  if l.slots.bytes.length < l.slots.required then
    let missing := l.slots.required - l.slots.bytes.length
    if missing ≤ l.buffer.length then
      let bytes := l.slots.bytes ++ l.buffer.take missing
      ask G { l with buffer := l.buffer.drop missing, slots := { l.slots with bytes } }
    else .inr (.ok (.needMore (missing - l.buffer.length)), l)
  else if l.slots.leftover then ask G { l with slots := { l.slots with leftover := false } }
  else match l.buffer.splitLine? with
    | some (line, buffer) =>
      if G.maxLineLength < line.length then
        .inr (fail G l.state buffer { fault := .lineTooLong } line)
      else ask G { l with buffer, slots := { l.slots with bytes := l.slots.bytes ++ line } }
    | none =>
      if G.maxLineLength < l.buffer.length then
        .inr (.error { fault := .lineTooLong, raw := Reception.droppedNote l.buffer.length },
          { l with buffer := [], slots := { discard := some .line } })
      else .inr (.ok (.needMore 1), l)

/-- One round. -/
def round (l : ReceiveLoop γ) : ReceiveLoop γ ⊕ Report γ υ :=
  match l.slots.discard with
  | some what => skip G l what
  | none => gather G l

/-! ## Rounds end -/

/-- The bytes that are there and unread, and what is to be settled without a new one: bytes that are
left over, and the end of a literal that is skipped. -/
def size (l : ReceiveLoop γ) : Nat :=
  let skipping := match l.slots.discard with
    | some (.literal _) => 1
    | some .line | none => 0
  2 * l.buffer.length + (l.slots.leftover.toNat + skipping)

/-- The bytes that are there, gathered or unread, and what is to be settled without a new one. -/
def total (l : ReceiveLoop γ) : Nat := l.size + 2 * l.slots.bytes.length

/-- How what a round leads to is smaller than where it began. -/
def Shrinks (G : Grammar γ υ) (l : ReceiveLoop γ) : ReceiveLoop γ ⊕ Report γ υ → Prop
  | .inl l' => l'.size < l.size ∧ l'.total ≤ l.total
  | .inr (.ok (.complete _), l') => G.Lawful → l'.total < l.total
  | .inr (.ok (.needMore _), l') => l'.size ≤ l.size
  | .inr (.ok (.continuing _ _), l') => l'.size < l.size
  | .inr (.error _, l') => l'.total < l.total

variable {G}

/-- A refusal leaves at most a literal to be skipped, and none if nothing is refused. -/
theorem total_fail (state : γ) (buffer : Bytes) (report : Malformed) (raw : Bytes) :
    (fail (υ := υ) G state buffer report raw).2.total ≤ 2 * buffer.length + min raw.length 1 := by
  simp only [fail, total, size, Bool.toNat_false, List.length_nil]
  cases raw with
  | nil => simp [Bytes.lastLine?]
  | cons b raw =>
    rw [List.length_cons]
    split <;> omega

/-- Asking the grammar shrinks a loop that has just gathered the bytes it is asked about. -/
theorem shrinks_ask {l l' : ReceiveLoop γ} (hdiscard : l'.slots.discard = none)
    (hsize : l'.size < l.size) (htotal : l'.total ≤ l.total)
    (hstrict : 2 * l'.buffer.length + min l'.slots.bytes.length 1 < l.total) :
    Shrinks G l (ask G l') := by
  unfold ask
  split
  · next unit rest hparse =>
    intro hG
    have hshorter := hG.length_lt hparse
    simp only [total, size, hdiscard] at htotal ⊢
    cases l'.slots.leftover <;> cases rest <;> simp at htotal hshorter ⊢ <;> omega
  · exact ⟨hsize, htotal⟩
  · dsimp only
    split
    · exact hsize
    · exact ⟨hsize, htotal⟩
  · next state report _ =>
    exact Nat.lt_of_le_of_lt (total_fail state l'.buffer report l'.slots.bytes) hstrict

theorem shrinks_skip {l : ReceiveLoop γ} {what : Discard} (h : l.slots.discard = some what) :
    Shrinks G l (skip G l what) := by
  obtain ⟨state, ⟨bytes, required, continuing, leftover, discard⟩, buffer⟩ := l
  obtain rfl : discard = some what := h
  cases what with
  | literal length =>
    unfold skip
    dsimp only
    split
    · -- the end of the literal counts, since an empty one uses no bytes
      simp only [Shrinks, total, size, List.length_drop]
      omega
    · split
      · simp only [Shrinks, size, List.length_drop]
        omega
      · simp only [Shrinks, total, size, List.length_drop]
        omega
  | line =>
    unfold skip
    dsimp only
    split
    · simp only [Shrinks, size, List.length_nil]
      omega
    · next line rest hline =>
      have hshorter := Bytes.length_lt_of_splitLine? hline
      cases G.literalToDiscard state line.trimLineEnding <;>
      · simp only [Shrinks, total, size, Option.map_none, Option.map_some]
        omega

theorem shrinks_gather {l : ReceiveLoop γ} (h : l.slots.discard = none) :
    Shrinks G l (gather G l) := by
  obtain ⟨state, ⟨bytes, required, continuing, leftover, discard⟩, buffer⟩ := l
  obtain rfl : discard = none := h
  unfold gather
  dsimp only
  split
  · split
    · apply shrinks_ask rfl <;>
      · simp only [total, size, List.length_append, List.length_take, List.length_drop]
        omega
    · exact Nat.le_refl _
  · split
    · next hleft =>
      apply shrinks_ask rfl <;>
      · simp only [total, size, hleft, Bool.toNat_true, Bool.toNat_false]
        omega
    · split
      · next line rest hline =>
        have hlength := Bytes.length_of_splitLine? hline
        have hpos := List.length_pos_iff.2 (Bytes.ne_nil_of_splitLine? hline)
        split
        · refine Nat.lt_of_le_of_lt (total_fail state rest { fault := .lineTooLong } line) ?_
          simp only [total, size]
          omega
        · apply shrinks_ask rfl <;>
          · simp only [total, size, List.length_append]
            omega
      · split
        · simp only [Shrinks, total, size, List.length_nil, Bool.toNat_false]
          omega
        · exact Nat.le_refl _

/-- Every round shrinks its loop. -/
theorem shrinks_round (l : ReceiveLoop γ) : Shrinks G l (round G l) := by
  unfold round
  split
  · next what hdiscard => exact shrinks_skip hdiscard
  · next hdiscard => exact shrinks_gather hdiscard

/-- Each round that leads on uses bytes, or settles what is left over or the end of a literal. -/
theorem size_of_round {l l' : ReceiveLoop γ} (h : round G l = .inl l') : l'.size < l.size := by
  have hshrinks := shrinks_round (G := G) l
  rw [h] at hshrinks
  exact hshrinks.1

variable (G)

/-- Do rounds until there is something to report. -/
def advance (l : ReceiveLoop γ) : Report γ υ := iterate (round G) size size_of_round l

variable {G}

/-- What has been reported shrinks the loop. -/
theorem shrinks_advance (l : ReceiveLoop γ) : Shrinks G l (.inr (advance G l)) := by
  refine iterate_induction (P := fun a => a.size ≤ l.size ∧ a.total ≤ l.total)
    (Q := fun b => Shrinks G l (.inr b)) ?_ ?_ l ⟨Nat.le_refl _, Nat.le_refl _⟩
  · rintro a a' ⟨hsize, htotal⟩ hround
    have hshrinks := shrinks_round (G := G) a
    rw [hround] at hshrinks
    exact ⟨hshrinks.1.le.trans hsize, hshrinks.2.trans htotal⟩
  · rintro a ⟨result, l'⟩ ⟨hsize, htotal⟩ hround
    have hshrinks := shrinks_round (G := G) a
    rw [hround] at hshrinks
    match result with
    | .ok (.complete _) => exact fun hG => (hshrinks hG).trans_le htotal
    | .ok (.needMore _) => exact hshrinks.trans hsize
    | .ok (.continuing _ _) => exact hshrinks.trans_le hsize
    | .error _ => exact hshrinks.trans_le htotal

theorem advance_of_round {l l' : ReceiveLoop γ} (h : round G l = .inl l') :
    advance G l = advance G l' := by
  rw [advance, iterate_eq, h]
  rfl

theorem advance_of_report {l : ReceiveLoop γ} {b : Report γ υ} (h : round G l = .inr b) :
    advance G l = b := by
  rw [advance, iterate_eq, h]

/-! ## The slots of a fragment -/

theorem slots_recovery (state : γ) (raw : Bytes) : (Reception.recovery G state raw).slots
    = { discard := (raw.lastLine?.bind (G.literalToDiscard state)).map Discard.literal } := by
  rw [Reception.recovery]
  cases raw.lastLine?.bind (G.literalToDiscard state) <;> rfl

theorem fail_eq (state : γ) (buffer : Bytes) (report : Malformed) (raw : Bytes) :
    fail G state buffer report raw
      = Reception.Report.loop (υ := υ) (Reception.refuse G state buffer report raw) := by
  rw [fail, Reception.Report.loop, Reception.refuse, Reception.loop, slots_recovery]

/-- The grammar is asked about the slots of a fragment as about the fragment. -/
theorem ask_eq (state : γ) (buffer bytes : Bytes) (required : Nat) :
    ask G ⟨state, { bytes, required, continuing := 0 < required }, buffer⟩
      = (Reception.parse G state buffer bytes required).map Reception.loop
          Reception.Report.loop := by
  unfold ask Reception.parse
  rcases G.parse state bytes with ⟨state', report | ⟨unit, rest⟩ | _ | ⟨missing, synchronising⟩⟩
  · dsimp only
    rw [fail_eq]
    rfl
  · cases rest <;> rfl
  · rfl
  · dsimp only
    by_cases hmore : required < bytes.length + missing
    · have hpos : 0 < bytes.length + missing := Nat.zero_lt_of_lt hmore
      simp only [if_pos hmore, Sum.map_inr, Reception.Report.loop, Reception.loop, Fragment.slots,
        hpos, decide_true]
    · rw [if_neg hmore, if_neg hmore]
      rfl

/-- Bytes are gathered as in a step. -/
theorem gather_eq (state : γ) (bytes : Bytes) (required : Nat) (buffer : Bytes) :
    gather G ⟨state, { bytes, required, continuing := 0 < required }, buffer⟩
      = (Reception.step G ⟨state, .gathering bytes required, buffer⟩).map Reception.loop
          Reception.Report.loop := by
  simp only [gather, Reception.step, Bool.false_eq_true, if_false]
  by_cases hwait : bytes.length < required
  · rw [if_pos hwait, if_pos hwait]
    by_cases hthere : required - bytes.length ≤ buffer.length
    · rw [if_pos hthere, if_pos hthere]
      exact ask_eq _ _ _ _
    · rw [if_neg hthere, if_neg hthere]
      rfl
  · rw [if_neg hwait, if_neg hwait]
    rcases buffer.splitLine? with _ | ⟨line, rest⟩
    · by_cases hlong : G.maxLineLength < buffer.length
      · simp only [if_pos hlong]
        rfl
      · simp only [if_neg hlong]
        rfl
    · by_cases hlong : G.maxLineLength < line.length
      · simp only [if_pos hlong, fail_eq]
        rfl
      · simp only [if_neg hlong]
        exact ask_eq _ _ _ _

section
variable (G) (state : γ) (slots : Slots) {length : Nat} {buffer : Bytes}

theorem skip_literal (hthere : length ≤ buffer.length) :
    skip G ⟨state, slots, buffer⟩ (.literal length)
      = .inl ⟨state, { slots with discard := some .line }, buffer.drop length⟩ := by
  have hskipped : min length buffer.length = length := Nat.min_eq_left hthere
  simp only [skip, if_pos hskipped]

theorem skip_literal_part (hshort : buffer.length < length) (hne : buffer ≠ []) :
    skip G ⟨state, slots, buffer⟩ (.literal length)
      = .inl ⟨state, { slots with discard := some (.literal (length - buffer.length)) }, []⟩ := by
  have hpos := List.length_pos_iff.2 hne
  have hskipped : min length buffer.length = buffer.length := Nat.min_eq_right (by omega)
  have hnone : buffer.drop length = [] := List.drop_eq_nil_of_le (by omega)
  simp only [skip, hskipped, hnone, if_neg (Nat.ne_of_lt hshort), if_neg (Nat.ne_of_gt hpos)]

theorem skip_literal_none (hpos : 0 < length) : skip G ⟨state, slots, []⟩ (.literal length)
    = .inr (.ok (.needMore length), ⟨state, slots, []⟩) := by
  simp only [skip, List.length_nil, Nat.min_zero, List.drop_nil, if_neg (Nat.ne_of_lt hpos),
    if_true]

end

/-- A round does what a step does. Only of a literal that is there in part it skips that part first,
and finds too few bytes in the next round. -/
theorem round_loop (r : Reception γ) :
    round G r.loop = (Reception.step G r).map Reception.loop Reception.Report.loop
      ∨ ∃ l, round G r.loop = .inl l
        ∧ round G l = (Reception.step G r).map Reception.loop Reception.Report.loop := by
  obtain ⟨state, fragment, buffer⟩ := r
  match fragment with
  | .discarding (.literal length) =>
    by_cases hthere : length ≤ buffer.length
    · left
      simp only [Reception.step, if_pos hthere]
      exact skip_literal G state _ hthere
    · have hshort : buffer.length < length := Nat.lt_of_not_le hthere
      rw [Reception.step_skip_literal_short state hshort]
      by_cases hempty : buffer = []
      · left
        subst hempty
        exact skip_literal_none G state _ hshort
      · right
        exact ⟨_, skip_literal_part G state _ hshort hempty,
          skip_literal_none G state _ (Nat.sub_pos_of_lt hshort)⟩
  | .discarding .line =>
    left
    simp only [Reception.loop, Fragment.slots, round, skip, Reception.step]
    rcases buffer.splitLine? with _ | ⟨line, rest⟩
    · rfl
    · dsimp only
      cases G.literalToDiscard state line.trimLineEnding <;> rfl
  | .leftover bytes =>
    left
    exact ask_eq state buffer bytes 0
  | .gathering bytes required =>
    left
    exact gather_eq state bytes required buffer

/-- From the slots of a fragment the loop reports what the reception reports, and comes to the slots
of the fragment that the reception comes to. -/
theorem advance_loop (r : Reception γ) :
    advance G r.loop = (Reception.advance G r).loop := by
  refine iterate_induction (P := fun a => advance G r.loop = advance G a.loop)
    (Q := fun b : Reception.Report γ υ => advance G r.loop = b.loop) ?_ ?_ r rfl
  -- each step is one round, or two
  · intro a a' heq hstep
    rcases round_loop (G := G) a with hround | ⟨l, hround, hnext⟩
    · rw [hstep] at hround
      exact heq.trans (advance_of_round hround)
    · rw [hstep] at hnext
      exact heq.trans ((advance_of_round hround).trans (advance_of_round hnext))
  · intro a b heq hstep
    rcases round_loop (G := G) a with hround | ⟨l, hround, hnext⟩
    · rw [hstep] at hround
      exact heq.trans (advance_of_report hround)
    · rw [hstep] at hnext
      exact heq.trans ((advance_of_round hround).trans (advance_of_report hnext))

end ReceiveLoop

/-! ## Receivers -/

/-- A receiver that keeps slots. -/
structure SlotReceiver (γ : Type) where
  state : γ
  slots : Slots := {}
deriving DecidableEq, Repr

/-- The receiver with the slots of its fragment. -/
def Receiver.slotted (r : Receiver γ) : SlotReceiver γ := ⟨r.state, r.fragment.slots⟩

namespace SlotReceiver

/-- Report once from what the transport has buffered. -/
def receive (G : Grammar γ υ) (s : SlotReceiver γ) (t : Transport) :
    Except Malformed (Outcome υ) × SlotReceiver γ × Transport :=
  let (result, out) := ReceiveLoop.advance G { s with buffer := t.buffer }
  (result, ⟨out.state, out.slots⟩, { t with buffer := out.buffer })

/-- The loop over what a transport has buffered. -/
def loop (s : SlotReceiver γ) (t : Transport) : ReceiveLoop γ := { s with buffer := t.buffer }

/-- Reporting shrinks the loop, and leaves the stream alone. -/
theorem shrinks_receive (G : Grammar γ υ) (s : SlotReceiver γ) (t : Transport) :
    (s.receive G t).2.2.remaining = t.remaining ∧ ReceiveLoop.Shrinks G (s.loop t)
      (.inr ((s.receive G t).1, (s.receive G t).2.1.loop (s.receive G t).2.2)) :=
  ⟨rfl, ReceiveLoop.shrinks_advance (s.loop t)⟩

/-- Clear the slots, and forget what the grammar kept from earlier units. -/
def reset (G : Grammar γ υ) (s : SlotReceiver γ) : SlotReceiver γ := { state := G.reset s.state }

/-- The receiver has come about by receiving from transports, whatever they held, and by the other
ways in which a connection uses it. -/
inductive Reached (G : Grammar γ υ) : SlotReceiver γ → Prop
  | start (g : γ) : Reached G { state := g }
  | receive {s : SlotReceiver γ} (h : Reached G s) (t : Transport) : Reached G (s.receive G t).2.1
  | reset {s : SlotReceiver γ} (h : Reached G s) : Reached G (s.reset G)
  | setState {s : SlotReceiver γ} (h : Reached G s) (f : γ → γ) :
    Reached G { s with state := f s.state }

/-- A receiver that keeps slots reports the same as one that keeps a fragment, and uses the same
bytes. -/
theorem receive_slotted (G : Grammar γ υ) (r : Receiver γ) (t : Transport) :
    r.slotted.receive G t
      = ((r.receive G t).1, (r.receive G t).2.1.slotted, (r.receive G t).2.2) := by
  have hloop := ReceiveLoop.advance_loop (G := G) (r.reception t)
  simp only [Reception.loop, Receiver.reception] at hloop
  simp only [receive, Receiver.slotted, hloop]
  rfl

/-- The slots that come about are those of the fragments that come about. -/
theorem reached_iff {s : SlotReceiver γ} :
    Reached G s ↔ ∃ r, Receiver.Reached G r ∧ r.slotted = s := by
  constructor
  · intro h
    induction h with
    | start g => exact ⟨_, .start g, rfl⟩
    | receive _ t ih =>
      obtain ⟨r, hr, rfl⟩ := ih
      exact ⟨_, hr.receive t, by rw [receive_slotted]⟩
    | reset _ ih =>
      obtain ⟨r, hr, rfl⟩ := ih
      exact ⟨_, hr.reset, rfl⟩
    | setState _ f ih =>
      obtain ⟨r, hr, rfl⟩ := ih
      exact ⟨_, hr.setState f, rfl⟩
  · rintro ⟨r, hr, rfl⟩
    induction hr with
    | start g => exact .start g
    | @receive r _ t ih =>
      have hnext := ih.receive t
      rwa [receive_slotted] at hnext
    | reset _ ih => exact ih.reset
    | setState _ f ih => exact ih.setState f

end SlotReceiver

end MailProtocol
