import MailProtocol.Bytes.Decimal
import MailProtocol.Bytes.Split
import MailProtocol.Fragment
import MailProtocol.Grammar
import MailProtocol.Iterate

/-!
# Reception

A receiver gathers what arrives into a fragment until its grammar can take a unit off it. The
fragment grows by whole lines, or by exactly the bytes that an announced literal still needs, so a
unit is read in the same way however it was cut on its way.

Malformed input clears the fragment, so no byte of it is read again. If its last line announces a
literal that the peer will send all the same, that literal and the rest of its line are skipped, and
further literals that the rest announces. A line that grows too long before its end has come is
dropped, and the rest of it is skipped when it comes.

`Reception.step` is one step; `Reception.advance` repeats it until there is something to report, and
`Reception.drain` reports until more bytes are needed. Steps end because each one uses bytes of the
buffer or settles what was left from before (`size_of_step`), and reports end because each unit and
each refusal takes bytes away for good (`shrinks_advance`).
-/

namespace MailProtocol

/-- The state of the grammar, the fragment, and the bytes that are there to be used. -/
structure Reception (γ : Type) where
  state : γ
  fragment : Fragment := .empty
  buffer : Bytes
deriving DecidableEq, Repr

namespace Reception

variable {γ υ : Type} (G : Grammar γ υ)

/-- A report, and the reception after it. -/
abbrev Report (γ υ : Type) := Except Malformed (Outcome υ) × Reception γ

/-- What follows malformed input whose last bytes are `raw`. -/
def recovery (state : γ) (raw : Bytes) : Fragment :=
  match raw.lastLine?.bind (G.literalToDiscard state) with
  | some length => .discarding (.literal length)
  | none => .empty

/-- Refuse `raw`. -/
def refuse (state : γ) (buffer : Bytes) (report : Malformed) (raw : Bytes) : Report γ υ :=
  (.error { report with raw }, { state, buffer, fragment := recovery G state raw })

/-- Ask the grammar about the fragment `bytes`. -/
def parse (state : γ) (buffer bytes : Bytes) (required : Nat) : Reception γ ⊕ Report γ υ :=
  match G.parse state bytes with
  | (state, .ok (.complete unit rest)) =>
    let fragment := if rest.isEmpty then .empty else .leftover rest
    .inr (.ok (.complete unit), { state, buffer, fragment })
  | (state, .ok (.incomplete .line)) =>
    .inl { state, buffer, fragment := .gathering bytes required }
  | (state, .ok (.incomplete (.literal missing synchronising))) =>
    if required < bytes.length + missing then
      .inr (.ok (.continuing missing synchronising),
        { state, buffer, fragment := .gathering bytes (bytes.length + missing) })
    else .inl { state, buffer, fragment := .gathering bytes required }
  | (state, .error report) => .inr (refuse G state buffer report bytes)

/-- The stand-in for the bytes of a line that was dropped before its end had come. -/
def droppedNote (count : Nat) : Bytes :=
  Bytes.ascii "<" ++ Decimal.write count ++ Bytes.ascii " bytes>"

/-- One step. -/
def step (r : Reception γ) : Reception γ ⊕ Report γ υ :=
  match r.fragment with
  | .discarding (.literal length) =>
    let there := r.buffer.length
    if length ≤ there then
      .inl { r with fragment := .discarding .line, buffer := r.buffer.drop length }
    else
      .inr (.ok (.needMore (length - there)),
        { r with fragment := .discarding (.literal (length - there)), buffer := [] })
  | .discarding .line =>
    match r.buffer.splitLine? with
    | none => .inr (.ok (.needMore 1), { r with buffer := [] })
    | some (line, rest) =>
      match G.literalToDiscard r.state line.trimLineEnding with
      | some length => .inl { r with fragment := .discarding (.literal length), buffer := rest }
      | none => .inl { r with fragment := .empty, buffer := rest }
  | .leftover bytes => parse G r.state r.buffer bytes 0
  | .gathering bytes required =>
    if bytes.length < required then
      let missing := required - bytes.length
      let there := r.buffer.length
      if missing ≤ there then
        parse G r.state (r.buffer.drop missing) (bytes ++ r.buffer.take missing) required
      else .inr (.ok (.needMore (missing - there)), r)
    else match r.buffer.splitLine? with
      | some (line, rest) =>
        if G.maxLineLength < line.length then
          .inr (refuse G r.state rest { fault := .lineTooLong } line)
        else parse G r.state rest (bytes ++ line) required
      | none =>
        let there := r.buffer.length
        if G.maxLineLength < there then
          .inr (.error { fault := .lineTooLong, raw := droppedNote there },
            { r with fragment := .discarding .line, buffer := [] })
        else .inr (.ok (.needMore 1), r)

/-! ## Steps end -/

/-- The bytes that are there and unread, and what is to be settled without a new one. -/
def size (r : Reception γ) : Nat := 2 * r.buffer.length + r.fragment.weight

/-- The bytes that are there, gathered or unread, and what is to be settled without a new one. -/
def total (r : Reception γ) : Nat :=
  2 * (r.fragment.bytes.length + r.buffer.length) + r.fragment.weight

variable {G}

/-- How what a step leads to is smaller than where it began. -/
def Shrinks (G : Grammar γ υ) (r : Reception γ) : Reception γ ⊕ Report γ υ → Prop
  | .inl r' => r'.size < r.size ∧ r'.total ≤ r.total
  | .inr (.ok (.complete _), r') => G.Lawful → r'.total < r.total
  | .inr (.ok (.needMore _), r') => r'.size ≤ r.size ∧ r'.total ≤ r.total
  | .inr (.ok (.continuing _ _), r') => r'.size < r.size ∧ r'.total ≤ r.total
  | .inr (.error _, r') => r'.total < r.total

theorem bytes_recovery (state : γ) (raw : Bytes) : (recovery G state raw).bytes = [] := by
  unfold recovery
  split <;> rfl

theorem weight_recovery_le (state : γ) (raw : Bytes) :
    (recovery G state raw).weight ≤ min raw.length 1 := by
  cases raw with
  | nil => simp [recovery, Bytes.lastLine?, Fragment.weight, Fragment.empty]
  | cons b raw =>
    unfold recovery
    split <;> simp [Fragment.weight, Fragment.empty]

/-- A refusal gives up what was gathered. -/
theorem total_refuse (state : γ) (buffer : Bytes) (report : Malformed) (raw : Bytes) :
    (refuse (υ := υ) G state buffer report raw).2.total ≤ 2 * buffer.length + min raw.length 1 := by
  have := weight_recovery_le (G := G) state raw
  simp only [refuse, total, bytes_recovery, List.length_nil]
  omega

/-- Asking the grammar shrinks a reception that has just gathered `bytes`. -/
theorem shrinks_parse {r : Reception γ} {state : γ} {buffer bytes : Bytes} {required : Nat}
    (hsize : 2 * buffer.length < r.size)
    (htotal : 2 * (bytes.length + buffer.length) ≤ r.total)
    (hstrict : 2 * buffer.length + min bytes.length 1 < r.total) :
    Shrinks G r (parse G state buffer bytes required) := by
  unfold parse
  split
  · next unit rest hp =>
    intro hG
    have := hG.length_lt hp
    cases rest <;> simp_all [total, Fragment.bytes, Fragment.weight, Fragment.empty] <;> omega
  · exact ⟨hsize, htotal⟩
  · split <;> exact ⟨hsize, htotal⟩
  · next state report _ =>
    exact Nat.lt_of_le_of_lt (total_refuse state buffer report bytes) hstrict

/-- Every step shrinks its reception. -/
theorem shrinks_step (r : Reception γ) : Shrinks G r (step G r) := by
  obtain ⟨state, fragment, buffer⟩ := r
  unfold step
  simp only
  split
  · split
    · simp [Shrinks, size, total, Fragment.bytes, Fragment.weight]
      omega
    · simp [Shrinks, size, total, Fragment.bytes, Fragment.weight]
  · split
    · simp [Shrinks, size, total, Fragment.bytes, Fragment.weight]
    · next hline =>
      have := Bytes.length_lt_of_splitLine? hline
      split <;>
        simp [Shrinks, size, total, Fragment.bytes, Fragment.weight, Fragment.empty] <;> omega
  · apply shrinks_parse <;> simp [size, total, Fragment.bytes, Fragment.weight]
    omega
  · next bytes required =>
    split
    · split
      · apply shrinks_parse <;>
          simp only [size, total, Fragment.bytes, Fragment.weight, List.length_drop,
            List.length_append, List.length_take] <;> omega
      · exact ⟨Nat.le_refl _, Nat.le_refl _⟩
    · split
      · next line rest hline =>
        have := Bytes.length_of_splitLine? hline
        have := List.length_pos_iff.2 (Bytes.ne_nil_of_splitLine? hline)
        split
        · refine Nat.lt_of_le_of_lt (total_refuse state rest { fault := .lineTooLong } line) ?_
          simp only [total, Fragment.bytes, Fragment.weight]
          omega
        · apply shrinks_parse <;>
            simp only [size, total, Fragment.bytes, Fragment.weight, List.length_append] <;> omega
      · split
        · simp [Shrinks, total, Fragment.bytes, Fragment.weight]
          omega
        · exact ⟨Nat.le_refl _, Nat.le_refl _⟩

/-- A step that leads on makes the reception smaller. -/
theorem size_of_step {r r' : Reception γ} (h : step G r = .inl r') : r'.size < r.size := by
  have := shrinks_step (G := G) r
  rw [h] at this
  exact this.1

/-! ## Reports -/

variable (G)

/-- Take steps until there is something to report. -/
def advance (r : Reception γ) : Report γ υ := iterate (step G) size size_of_step r

variable {G}

/-- What has been reported shrinks the reception. -/
theorem shrinks_advance (r : Reception γ) : Shrinks G r (.inr (advance G r)) := by
  refine iterate_induction (P := fun a => a.size ≤ r.size ∧ a.total ≤ r.total)
    (Q := fun b => Shrinks G r (.inr b)) ?_ ?_ r ⟨Nat.le_refl _, Nat.le_refl _⟩
  · intro a a' ha h
    have := shrinks_step (G := G) a
    rw [h] at this
    simp only [Shrinks] at this
    omega
  · intro a b ha h
    have := shrinks_step (G := G) a
    rw [h] at this
    obtain ⟨result, r'⟩ := b
    rcases result with _ | ⟨_ | _ | _⟩ <;> simp only [Shrinks] at this ⊢
    · omega
    · intro hG
      have := this hG
      omega
    · omega
    · omega

/-- Units and refusals that were reported, and where the reports ended. -/
abbrev Drained (γ υ : Type) := List (Except Malformed υ) × Bool × Reception γ

/-- Report once more, after what has been reported, newest first. -/
def drainStep (G : Grammar γ υ) (a : List (Except Malformed υ) × Reception γ) :
    List (Except Malformed υ) × Reception γ ⊕ Drained γ υ :=
  match advance G a.2 with
  | (.ok (.complete unit), r) => .inl (.ok unit :: a.1, r)
  | (.error report, r) => .inl (.error report :: a.1, r)
  | (.ok (.continuing _ goAhead), r) => .inr (a.1.reverse, goAhead, r)
  | (.ok (.needMore _), r) => .inr (a.1.reverse, false, r)

/-- Each unit and each refusal takes bytes away for good. -/
theorem total_of_drainStep (hG : G.Lawful) {a a' : List (Except Malformed υ) × Reception γ}
    (h : drainStep G a = .inl a') : a'.2.total < a.2.total := by
  have hs := shrinks_advance (G := G) a.2
  unfold drainStep at h
  split at h
  · next ha =>
    obtain rfl := Sum.inl.inj h
    rw [ha] at hs
    exact hs hG
  · next ha =>
    obtain rfl := Sum.inl.inj h
    rw [ha] at hs
    exact hs
  · simp at h
  · simp at h

/-- Report until more bytes are needed: the units and refusals in order, and whether the peer waits
to be asked for a literal. -/
def drain (hG : G.Lawful) (r : Reception γ) : Drained γ υ :=
  iterate (drainStep G) (·.2.total) (total_of_drainStep hG) ([], r)

end Reception

end MailProtocol
