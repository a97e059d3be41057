import MailProtocol.Proofs.Reception.Pace

/-!
# How long receiving goes on

A step that is repeated ends after a certain number of times (`EndsAfter`), and where each step
makes a state smaller, this number is not larger than the size at the beginning
(`exists_endsAfter_iterate`). So the receive loop ends whatever its grammar answers and however its
slots are set: its rounds are bounded by what is there (`ReceiveLoop.exists_endsAfter_round`).

Draining ends sooner with a grammar that keeps pace. Each result takes a line away, or gives up a
line whose end has not come, and after that nothing is there any more (`Reception.due`). So there
are at most as many results as line feeds, and one (`Reception.exists_endsAfter_drain`).
-/

namespace MailProtocol

/-! ## Repeating a step -/

section
variable {α β : Type} {step : α → α ⊕ β}

/-- The step leads on `n` times and then stops with `b`. -/
inductive EndsAfter (step : α → α ⊕ β) : Nat → α → β → Prop
  | stop {a : α} {b : β} (h : step a = .inr b) : EndsAfter step 0 a b
  | step {n : Nat} {a a' : α} {b : β} (h : step a = .inl a') (hrest : EndsAfter step n a' b) :
    EndsAfter step (n + 1) a b

/-- Repeating a step that makes each state smaller ends after at most as many steps as the state is
large. -/
theorem exists_endsAfter_iterate {size : α → Nat}
    (shrinks : ∀ {a a' : α}, step a = .inl a' → size a' < size a) (a : α) :
    ∃ n ≤ size a, EndsAfter step n a (iterate step size shrinks a) := by
  generalize hsize : size a = k
  induction k using Nat.strongRecOn generalizing a with
  | ind k ih =>
    rw [iterate_eq]
    rcases hstep : step a with a' | b
    · have hlt := shrinks hstep
      obtain ⟨n, hn, hends⟩ := ih (size a') (hsize ▸ hlt) a' rfl
      exact ⟨n + 1, by omega, .step hstep hends⟩
    · exact ⟨0, Nat.zero_le k, .stop hstep⟩

end

variable {γ υ : Type} {G : Grammar γ υ}

/-- Beside the bytes that are there, at most two things are to be settled. -/
theorem ReceiveLoop.size_le (l : ReceiveLoop γ) : l.size ≤ 2 * l.buffer.length + 2 := by
  have := Bool.toNat_le l.slots.leftover
  rw [size]
  split <;> omega

/-- The receive loop ends after at most two rounds for each byte that is there, and two more,
whatever its slots say and whatever its grammar answers. -/
theorem ReceiveLoop.exists_endsAfter_round (G : Grammar γ υ) (l : ReceiveLoop γ) :
    ∃ n ≤ 2 * l.buffer.length + 2, EndsAfter (round G) n l (advance G l) := by
  obtain ⟨n, hn, hends⟩ := exists_endsAfter_iterate (size_of_round (G := G)) l
  exact ⟨n, hn.trans l.size_le, hends⟩

/-! ## Results of draining -/

namespace Reception

/-- How many results there may still be: one for each line that is there as a whole, and one for a
line whose end has not come, unless that one is being skipped already. -/
def due (r : Reception γ) : Nat :=
  r.buffer.count Byte.lf + if r.fragment = .discarding .line ∧ r.buffer = [] then 0 else 1

theorem due_le (r : Reception γ) : r.due ≤ r.buffer.count Byte.lf + 1 := by
  rw [due]
  split <;> omega

theorem count_le_due (r : Reception γ) : r.buffer.count Byte.lf ≤ r.due := Nat.le_add_right _ _

theorem due_gathering (g : γ) (p buffer : Bytes) (required : Nat) :
    due ⟨g, .gathering p required, buffer⟩ = buffer.count Byte.lf + 1 := rfl

theorem due_literal (g : γ) (length : Nat) (buffer : Bytes) :
    due ⟨g, .discarding (.literal length), buffer⟩ = buffer.count Byte.lf + 1 := by
  rw [due, if_neg (by simp)]

theorem count_lf_of_isLine {l : Bytes} (h : l.IsLine) : l.count Byte.lf = 1 := by
  obtain ⟨content, hcontent, rfl⟩ := h
  rw [List.count_append, List.count_eq_zero_of_not_mem hcontent]
  rfl

/-- Behind a line one result less may come than there are line feeds. -/
theorem due_le_of_isLine {l : Bytes} (hl : l.IsLine) (g : γ) (f : Fragment) (rest : Bytes) :
    due ⟨g, f, rest⟩ ≤ (l ++ rest).count Byte.lf := by
  refine (due_le _).trans ?_
  rw [List.count_append, count_lf_of_isLine hl, Nat.add_comm]

/-- A step that leads on adds nothing to what may come. -/
theorem Pace.due_of_inl {r r' : Reception γ} (h : Pace G r (.inl r')) : r'.due ≤ r.due := by
  generalize hb : (Sum.inl r' : Reception γ ⊕ Report γ υ) = b at h
  cases h with
  | @data _ _ p d rest =>
    cases hb
    rw [due_gathering, due_gathering, List.count_append]
    omega
  | @skipsData g data rest =>
    cases hb
    refine (due_le _).trans ?_
    rw [due_literal, List.count_append]
    exact Nat.add_le_add_right (Nat.le_add_left _ _) 1
  | @skipsLine g l hl rest =>
    cases hb
    exact (due_le_of_isLine hl _ _ _).trans (count_le_due ⟨g, .discarding .line, l ++ rest⟩)
  | announces | complete | refuses | long | overflow | needMore | lacks => cases hb

/-- Each result takes from what may come. -/
theorem Pace.due_of_inr {r r' : Reception γ} {o : Except Malformed (Outcome υ)}
    (h : Pace G r (.inr (o, r'))) (ho : ∀ n, o ≠ .ok (.needMore n))
    (ho' : ∀ n goAhead, o ≠ .ok (.continuing n goAhead)) : r'.due < r.due := by
  generalize hb : (Sum.inr (o, r') : Reception γ ⊕ Report γ υ) = b at h
  cases h with
  | data | skipsData | skipsLine => cases hb
  | announces =>
    cases hb
    exact absurd rfl (ho' _ _)
  | needMore n | lacks n =>
    cases hb
    exact absurd rfl (ho n)
  | complete hl | refuses hl | long hl =>
    -- the line that was used counted for one result
    cases hb
    exact Nat.lt_succ_of_le (due_le_of_isLine hl _ _ _)
  | @overflow g p buffer required =>
    -- so did the line without an end, which is being skipped now
    cases hb
    rw [due_gathering, due, if_pos ⟨rfl, rfl⟩]
    exact Nat.succ_pos _

theorem due_advance (hG : G.Paced) {r : Reception γ} (h : Rests G r.fragment) :
    match advance G r with
      | (.ok (.complete _), r') | (.error _, r') => r'.due < r.due
      | (.ok (.needMore _), _) | (.ok (.continuing _ _), _) => True := by
  refine iterate_induction (P := fun a => Rests G a.fragment ∧ a.due ≤ r.due)
    (Q := fun b : Report γ υ => match b with
      | (.ok (.complete _), r') | (.error _, r') => r'.due < r.due
      | (.ok (.needMore _), _) | (.ok (.continuing _ _), _) => True) ?_ ?_ r ⟨h, Nat.le_refl _⟩
  · rintro a a' ⟨ha, hdue⟩ hstep
    have hpace := pace_step hG ha
    rw [hstep] at hpace
    exact ⟨hpace.rests ha, hpace.due_of_inl.trans hdue⟩
  · rintro a ⟨o, r'⟩ ⟨ha, hdue⟩ hstep
    have hpace := pace_step hG ha
    rw [hstep] at hpace
    match o with
    | .ok (.needMore _) | .ok (.continuing _ _) => trivial
    | .ok (.complete _) | .error _ => exact (hpace.due_of_inr (by simp) (by simp)).trans_le hdue

/-- As many results are added as the draining goes on. -/
theorem length_of_endsAfter_drainStep {n : Nat} {a : List (Except Malformed υ) × Reception γ}
    {d : Drained γ υ} (h : EndsAfter (drainStep G) n a d) : d.1.length = a.1.length + n := by
  induction h with
  | stop hstep =>
    unfold drainStep at hstep
    split at hstep
    · cases hstep
    · cases hstep
    · obtain rfl := Sum.inr.inj hstep
      rw [List.length_reverse]
      rfl
    · obtain rfl := Sum.inr.inj hstep
      rw [List.length_reverse]
      rfl
  | step hstep _ ih =>
    unfold drainStep at hstep
    split at hstep
    · obtain rfl := Sum.inl.inj hstep
      rw [ih, List.length_cons]
      omega
    · obtain rfl := Sum.inl.inj hstep
      rw [ih, List.length_cons]
      omega
    · cases hstep
    · cases hstep

/-- Draining goes on for no more results than may come. -/
theorem le_due_of_endsAfter_drainStep (hG : G.Paced) {n : Nat}
    {a : List (Except Malformed υ) × Reception γ} {d : Drained γ υ}
    (h : EndsAfter (drainStep G) n a d) (ha : Rests G a.2.fragment) : n ≤ a.2.due := by
  induction h with
  | stop => exact Nat.zero_le _
  | @step n a a' d hstep _ ih =>
    have hrests := (rests_advance hG ha).1
    have hdue := due_advance hG ha
    unfold drainStep at hstep
    split at hstep
    · next hadv =>
      obtain rfl := Sum.inl.inj hstep
      rw [hadv] at hrests hdue
      exact (Nat.succ_le_succ (ih hrests)).trans hdue
    · next hadv =>
      obtain rfl := Sum.inl.inj hstep
      rw [hadv] at hrests hdue
      exact (Nat.succ_le_succ (ih hrests)).trans hdue
    · cases hstep
    · cases hstep

/-- Draining ends with at most one result for each line feed, and one. -/
theorem exists_endsAfter_drain (hG : G.Lawful) (hpaced : G.Paced) {r : Reception γ}
    (h : Rests G r.fragment) :
    (drain hG r).1.length ≤ r.buffer.count Byte.lf + 1
      ∧ EndsAfter (drainStep G) (drain hG r).1.length ([], r) (drain hG r) := by
  obtain ⟨n, -, hends⟩ := exists_endsAfter_iterate (total_of_drainStep hG) ([], r)
  have hlength : (drain hG r).1.length = n := (length_of_endsAfter_drainStep hends).trans (by simp)
  rw [hlength]
  exact ⟨(le_due_of_endsAfter_drainStep hpaced hends h).trans r.due_le, hends⟩

end Reception

end MailProtocol
