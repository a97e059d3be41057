import MailProtocol.Proofs.Reception.Feeding

/-!
# Runs of a reception

`Reception.Runs G r pieces os r'` says that a reception comes from `r` to `r'` step by step. It
takes one of `pieces` whenever it finds too few bytes, and reports `os` on its way. Where a run has
come to, it can be fed on (`Runs.reaches`), and feeding is such a run (`exists_runs_feed`). So what
every step keeps holds wherever pieces lead, and more pieces only add reports (`feed_prefix_feed`).
-/

namespace MailProtocol

variable {γ υ : Type} {G : Grammar γ υ}

namespace Reception

/-- The reception comes from `r₀` to `r` step by step. It is given a piece only when it has found
too few bytes. -/
inductive Runs (G : Grammar γ υ) (r₀ : Reception γ) :
    List Bytes → List (Reported υ) → Reception γ → Prop
  | start : Runs G r₀ [] [] r₀
  | step {pieces : List Bytes} {os : List (Reported υ)} {r r' : Reception γ}
    (h : Runs G r₀ pieces os r) (hstep : step G r = .inl r') : Runs G r₀ pieces os r'
  | report {pieces : List Bytes} {os : List (Reported υ)} {o : Reported υ} {r r' : Reception γ}
    (h : Runs G r₀ pieces os r) (hstep : step G r = .inr (o, r'))
    (ho : ∀ n, o ≠ .ok (.needMore n)) : Runs G r₀ pieces (os ++ [o]) r'
  /-- What comes in part of a unit that is skipped is dropped. -/
  | needMore {pieces : List Bytes} {os : List (Reported υ)} {n : Nat} {r r' : Reception γ}
    (h : Runs G r₀ pieces os r) (hstep : step G r = .inr (.ok (.needMore n), r')) :
    Runs G r₀ pieces os r'
  | read {pieces : List Bytes} {os : List (Reported υ)} {n : Nat} {r : Reception γ}
    (h : Runs G r₀ pieces os r) (hstep : step G r = .inr (.ok (.needMore n), r)) (piece : Bytes) :
    Runs G r₀ (pieces ++ [piece]) os (r.extend piece)

/-- The report comes from a last step. -/
theorem exists_runs_advance (G : Grammar γ υ) (r : Reception γ) :
    ∃ a, Runs G r [] [] a ∧ step G a = .inr (advance G r) := by
  refine iterate_induction (P := fun a => Runs G r [] [] a)
    (Q := fun b : Report γ υ => ∃ a, Runs G r [] [] a ∧ step G a = .inr b) ?_ ?_ r .start
  · exact fun _ _ h hstep => h.step hstep
  · exact fun a _ h hstep => ⟨a, h, hstep⟩

namespace Runs

variable {r r' r'' : Reception γ} {pieces pieces' : List Bytes} {os os' : List (Reported υ)}

theorem trans (h : Runs G r pieces os r') (h' : Runs G r' pieces' os' r'') :
    Runs G r (pieces ++ pieces') (os ++ os') r'' := by
  induction h' with
  | start => rwa [List.append_nil, List.append_nil]
  | step _ hstep ih => exact ih.step hstep
  | report _ hstep ho ih => exact List.append_assoc os .. ▸ ih.report hstep ho
  | needMore _ hstep ih => exact ih.needMore hstep
  | read _ hstep piece ih => exact List.append_assoc pieces .. ▸ ih.read hstep piece

/-- A report that is not about missing bytes. -/
theorem of_report {o : Reported υ} (h : advance G r = (o, r')) (ho : ∀ n, o ≠ .ok (.needMore n)) :
    Runs G r [] [o] r' := by
  obtain ⟨a, hruns, hstep⟩ := exists_runs_advance G r
  exact hruns.report (h ▸ hstep) ho

/-- More bytes are needed, and none come. -/
theorem of_needMore {n : Nat} (h : advance G r = (.ok (.needMore n), r')) :
    Runs G r [] [] r' ∧ Reception.step G r' = .inr (.ok (.needMore n), r') := by
  obtain ⟨a, hruns, hstep⟩ := exists_runs_advance G r
  rw [h] at hstep
  exact ⟨hruns.needMore hstep, step_of_needMore hstep⟩

/-- More bytes are needed, and a piece comes. -/
theorem of_piece {n : Nat} (h : advance G r = (.ok (.needMore n), r')) (piece : Bytes) :
    Runs G r [piece] [] (r'.extend piece) :=
  let ⟨hruns, hstep⟩ := of_needMore h
  hruns.read hstep piece

/-- A reception that begins waits for the first piece. -/
theorem of_first (G : Grammar γ υ) (g : γ) (piece : Bytes) :
    Runs G { state := g, buffer := [] } [piece] [] { state := g, buffer := piece } :=
  Runs.start.read (step_line_short (Nat.le_refl 0) rfl (Nat.zero_le _)) piece

/-- Fed the pieces of a run, the reception goes on from where the run has come to. -/
theorem reaches (hG : G.Lawful) (h : Runs G r pieces os r') : Reaches hG r pieces os r' := by
  induction h with
  | start => exact .refl hG r
  | @step pieces os a a' _ hstep ih =>
    have hgoes : Reaches hG a [] [] a' := fun later => feed_congr hG (advance_of_step hstep) later
    have hmore := ih.trans hgoes
    rwa [List.append_nil, List.append_nil] at hmore
  | report _ hstep ho ih =>
    have hmore := ih.trans (.of_report (advance_of_report hstep) ho)
    rwa [List.append_nil] at hmore
  | needMore _ hstep ih =>
    have hmore := ih.trans (.of_needMore (advance_of_report hstep))
    rwa [List.append_nil, List.append_nil] at hmore
  | read _ hstep piece ih =>
    have hmore := ih.trans (.of_piece (advance_of_report hstep) piece)
    rwa [List.append_nil] at hmore

/-- At the end of the input all has been reported. -/
theorem feed_eq (hG : G.Lawful) {g : γ} {bytes : Bytes} {required : Nat}
    (h : Runs G r pieces os ⟨g, .gathering bytes required, []⟩) : feed hG r pieces = os := by
  have hall := h.reaches hG []
  rwa [feed_nothing hG g bytes required rfl, List.append_nil, List.append_nil] at hall

/-- Each report has been made at some place of the run. -/
theorem exists_step {before after : List (Reported υ)} {o : Reported υ}
    (h : Runs G r pieces os r') (hos : os = before ++ o :: after) :
    ∃ past coming a a', pieces = past ++ coming ∧ Runs G r past before a
      ∧ Reception.step G a = .inr (o, a') ∧ ∀ n, o ≠ .ok (.needMore n) := by
  induction h generalizing after with
  | start => simp at hos
  | step _ _ ih | needMore _ _ ih => exact ih hos
  | @report pieces os o' a a' hruns hstep ho ih =>
    rcases List.eq_nil_or_concat after with rfl | ⟨after, last, rfl⟩
    · obtain ⟨rfl, hlast⟩ := List.append_inj' hos rfl
      obtain rfl := List.singleton_inj.1 hlast
      exact ⟨pieces, [], a, a', (List.append_nil pieces).symm, hruns, hstep, ho⟩
    · rw [List.concat_eq_append, ← List.cons_append, ← List.append_assoc] at hos
      exact ih (List.append_inj' hos rfl).1
  | read _ _ piece ih =>
    obtain ⟨past, coming, a, a', rfl, hrest⟩ := ih hos
    exact ⟨past, coming ++ [piece], a, a', List.append_assoc past coming _, hrest⟩

end Runs

/-! ## Feeding runs -/

/-- Feeding runs on until more bytes are needed than these pieces bring. -/
theorem exists_runs_feed (hG : G.Lawful) (r : Reception γ) (pieces : List Bytes) :
    ∃ r' n, Runs G r pieces (feed hG r pieces) r' ∧ step G r' = .inr (.ok (.needMore n), r') := by
  fun_induction feed hG r pieces with
  | case1 r n r' hadv => exact ⟨r', n, Runs.of_needMore hadv⟩
  | case2 r n r' hadv piece pieces ih =>
    obtain ⟨r'', n', hruns, hstep⟩ := ih
    exact ⟨r'', n', (Runs.of_piece hadv piece).trans hruns, hstep⟩
  | case3 r pieces unit r' hadv ih =>
    obtain ⟨r'', n, hruns, hstep⟩ := ih
    exact ⟨r'', n, (Runs.of_report hadv (by simp)).trans hruns, hstep⟩
  | case4 r pieces missing goAhead r' hadv ih =>
    obtain ⟨r'', n, hruns, hstep⟩ := ih
    exact ⟨r'', n, (Runs.of_report hadv (by simp)).trans hruns, hstep⟩
  | case5 r pieces report r' hadv ih =>
    obtain ⟨r'', n, hruns, hstep⟩ := ih
    exact ⟨r'', n, (Runs.of_report hadv (by simp)).trans hruns, hstep⟩

/-- More pieces only add reports. -/
theorem feed_prefix_feed (hG : G.Lawful) (r : Reception γ) (pieces later : List Bytes) :
    feed hG r pieces <+: feed hG r (pieces ++ later) :=
  let ⟨_, _, h, _⟩ := exists_runs_feed hG r pieces
  (h.reaches hG).prefix_feed later

/-! ## Draining runs -/

/-- From what is there, the reception `r` has reported `results` when it stands at `r'`. The peer
waits to be asked for a literal that comes right after them if `goAhead`, and for no other. -/
def Drains (G : Grammar γ υ) (r : Reception γ) (results : List (Except Malformed υ))
    (goAhead : Bool) (r' : Reception γ) : Prop :=
  ∃ os, Runs G r [] os r' ∧ Reported.results os = results
    ∧ ∀ before, Reported.dues before os = if goAhead then [before + results.length] else []

namespace Drains

variable {r r' r'' : Reception γ} {results : List (Except Malformed υ)}

theorem refl (G : Grammar γ υ) (r : Reception γ) : Drains G r [] false r :=
  ⟨[], .start, rfl, fun _ => rfl⟩

/-- One more report: a result, or a literal that is announced behind the results so far. -/
theorem report {o : Reported υ} (h : Drains G r results false r') (hadv : advance G r' = (o, r''))
    (ho : ∀ n, o ≠ .ok (.needMore n)) :
    Drains G r (results ++ o.result?.toList) o.asks r'' := by
  obtain ⟨os, hruns, hresults, hdues⟩ := h
  refine ⟨os ++ [o], hruns.trans (.of_report hadv ho), ?_, fun before => ?_⟩
  · rw [Reported.results_append, hresults, Reported.results_cons]
    exact congrArg (results ++ ·) (List.append_nil _)
  · rw [Reported.dues_append, hdues, hresults]
    obtain report | ⟨unit⟩ | n | ⟨missing, goAhead⟩ := o
    · rfl
    · rfl
    · exact absurd rfl (ho n)
    · cases goAhead <;> simp [Reported.dues, Reported.asks, Reported.result?]

/-- More bytes are needed. -/
theorem needMore {goAhead : Bool} {n : Nat} (h : Drains G r results goAhead r')
    (hadv : advance G r' = (.ok (.needMore n), r'')) : Drains G r results goAhead r'' := by
  obtain ⟨os, hruns, hrest⟩ := h
  have hruns' : Runs G r [] (os ++ []) r'' := hruns.trans (Runs.of_needMore hadv).1
  rw [List.append_nil] at hruns'
  exact ⟨os, hruns', hrest⟩

end Drains

/-- Reporting until more bytes are needed uses no more than what is there. -/
theorem drains_drain (hG : G.Lawful) (r : Reception γ) :
    Drains G r (drain hG r).1 (drain hG r).2.1 (drain hG r).2.2 := by
  refine iterate_induction
    (P := fun a : List (Except Malformed υ) × Reception γ => Drains G r a.1.reverse false a.2)
    (Q := fun b : Drained γ υ => Drains G r b.1 b.2.1 b.2.2) ?_ ?_ ([], r) (.refl G r)
  · rintro ⟨newest, a⟩ a' hdrains hstep
    unfold drainStep at hstep
    split at hstep
    · next unit r' hadv =>
      obtain rfl := Sum.inl.inj hstep
      have hmore : Drains G r (newest.reverse ++ [.ok unit]) false r' :=
        hdrains.report hadv (by simp)
      rwa [← List.reverse_cons] at hmore
    · next refusal r' hadv =>
      obtain rfl := Sum.inl.inj hstep
      have hmore : Drains G r (newest.reverse ++ [.error refusal]) false r' :=
        hdrains.report hadv (by simp)
      rwa [← List.reverse_cons] at hmore
    · cases hstep
    · cases hstep
  · rintro ⟨newest, a⟩ b hdrains hstep
    unfold drainStep at hstep
    split at hstep
    · cases hstep
    · cases hstep
    · next missing goAhead r' hadv =>
      obtain rfl := Sum.inr.inj hstep
      have hmore : Drains G r (newest.reverse ++ []) goAhead r' := hdrains.report hadv (by simp)
      rwa [List.append_nil] at hmore
    · next n r' hadv =>
      obtain rfl := Sum.inr.inj hstep
      exact hdrains.needMore hadv

/-! ## Waiting for a literal -/

/-- A literal that is reported is being waited for. -/
theorem isContinuing_of_advance {r r' : Reception γ} {missing : Nat} {goAhead : Bool}
    (h : advance G r = (.ok (.continuing missing goAhead), r')) : r'.fragment.isContinuing := by
  obtain ⟨a, -, hstep⟩ := exists_runs_advance G r
  exact isContinuing_of_step (h ▸ hstep)

/-- So it is with one that the peer waits to be asked for after all that is there. -/
theorem isContinuing_of_drain (hG : G.Lawful) (r : Reception γ) :
    (drain hG r).2.1 → (drain hG r).2.2.fragment.isContinuing := by
  refine iterate_induction (P := fun _ => True)
    (Q := fun b : Drained γ υ => b.2.1 → b.2.2.fragment.isContinuing) ?_ ?_ ([], r) trivial
  · exact fun _ _ _ _ => trivial
  · rintro a b - hstep
    unfold drainStep at hstep
    split at hstep
    · cases hstep
    · cases hstep
    · next hadv =>
      obtain rfl := Sum.inr.inj hstep
      exact fun _ => isContinuing_of_advance hadv
    · obtain rfl := Sum.inr.inj hstep
      exact nofun

end Reception

end MailProtocol
