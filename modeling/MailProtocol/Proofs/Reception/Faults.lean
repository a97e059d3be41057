import MailProtocol.Imap.Endpoint
import MailProtocol.Pop3.Endpoint
import MailProtocol.Proofs.Imap.Lexeme
import MailProtocol.Proofs.Reception.Steps
import MailProtocol.Proofs.Text.Plain

/-!
# What is found wrong

Whatever bytes arrive, the grammars of both protocols find only faults that have a wording of their
own (`Grammar.RefusesKnown`), so nothing of a refused unit gets into what is said of it but numbers.
A receiver adds one fault, that of a line that is too long (`Receiver.isKnown_of_receive`).
-/

namespace MailProtocol

/-- What the grammar refuses, it refuses for a fault with a wording of its own. -/
def Grammar.RefusesKnown {γ υ : Type} (G : Grammar γ υ) : Prop :=
  ∀ {g g' : γ} {s : Bytes} {m : Malformed}, G.parse g s = (g', .error m) → m.fault.IsKnown

theorem Line.isKnown_of_first {s : Bytes} {fault : Fault} (h : first s = .error fault) :
    fault.IsKnown := by
  unfold first at h
  split at h
  · cases h
    trivial
  · split at h <;> cases h
    trivial

/-! ## IMAP -/

namespace Imap

variable {maxLiteral : Nat} {s : Bytes} {fault : Fault} {m : Malformed}

theorem LiteralMarker.isKnown_of_read {binary : Bool} (h : read binary s = .error fault) :
    fault.IsKnown := by
  unfold read at h
  simp only at h
  split at h
  · cases h
    trivial
  · split at h
    · cases h
      trivial
    · split at h <;> cases h <;> trivial

theorem isKnown_of_readQuoted {done : Bytes} (h : readQuoted done s = .error fault) :
    fault.IsKnown := by
  fun_induction readQuoted done s with
  | case1 | case2 | case4 | case6 =>
    cases h
    trivial
  | case3 => cases h
  | case5 =>
    rename_i ih
    exact ih h
  | case7 =>
    rename_i ih
    exact ih h

theorem Lexeme.literal_ne_wrong (marker : LiteralMarker) (data : Bytes) :
    literal marker data ≠ .wrong fault := by
  unfold literal
  simp only
  split <;> exact nofun

theorem Lexeme.isKnown_of_first {b : UInt8} (h : first maxLiteral b s = .wrong fault) :
    fault.IsKnown := by
  by_cases hb : IsPlain b
  -- the byte begins a marker or an atom
  · rw [first_of_isPlain hb] at h
    split at h
    · split at h
      · next hread =>
        cases h
        exact LiteralMarker.isKnown_of_read hread
      · split at h
        · cases h
          trivial
        · exact absurd h (literal_ne_wrong _ _)
    · split at h <;> cases h
      trivial
  · rcases eq_of_not_isPlain hb with rfl | rfl | rfl | rfl | rfl | rfl
    · cases h
    · unfold first at h
      rw [if_neg (by decide), if_pos rfl] at h
      split at h <;> cases h
      trivial
    · cases h
      trivial
    · cases h
    · cases h
    · rw [first_quote] at h
      split at h
      · next hread =>
        cases h
        exact isKnown_of_readQuoted hread
      · cases h

theorem Scan.isKnown_of_run {waits : Nat} {nest : Nest}
    (h : run maxLiteral nest waits s = .error fault) : fault.IsKnown := by
  fun_induction run maxLiteral nest waits s with
  | case1 | case3 | case6 => cases h
  | case2 _ _ _ _ _ hfirst =>
    cases h
    exact Lexeme.isKnown_of_first hfirst
  -- parentheses without a partner
  | case5 | case8 =>
    cases h
    trivial
  | case4 _ _ _ _ _ _ _ ih | case7 _ _ _ _ _ _ _ ih | case9 _ _ _ _ _ _ _ _ _ ih
  | case10 _ _ _ _ _ _ _ _ _ ih => exact ih h

theorem Code.isKnown_of_parseArgs (h : parseArgs maxLiteral s = .error fault) : fault.IsKnown := by
  unfold parseArgs at h
  split at h
  · next hparse =>
    cases h
    exact Scan.isKnown_of_run hparse
  · cases h
    trivial
  · cases h

theorem Code.isKnown_of_parse (h : parse maxLiteral s = .error fault) : fault.IsKnown := by
  unfold parse at h
  simp only at h
  split at h
  · cases h
    trivial
  · split at h
    · cases h
    · next args _ =>
      rcases hargs : parseArgs maxLiteral args with fault' | items
      · rw [hargs] at h
        cases h
        exact Code.isKnown_of_parseArgs hargs
      · rw [hargs] at h
        cases h

theorem StatusText.isKnown_of_parse (h : parse maxLiteral s = .error fault) : fault.IsKnown := by
  unfold parse at h
  split at h
  · next inner _ =>
    split at h
    · cases h
      trivial
    · rcases hcode : Code.parse maxLiteral (inner.takeWhile (· != Byte.closeBracket)) with
        fault' | code
      · rw [hcode] at h
        cases h
        exact Code.isKnown_of_parse hcode
      · rw [hcode] at h
        cases h
  · cases h

namespace Response

theorem isKnown_of_parseContinuation (h : parseContinuation s = .error m) : m.fault.IsKnown := by
  unfold parseContinuation at h
  split at h <;> cases h
  next hfirst => exact Line.isKnown_of_first hfirst

theorem isKnown_of_parseStatus {tag : Bytes} {condition : Condition}
    (h : parseStatus maxLiteral tag condition s = .error m) : m.fault.IsKnown := by
  unfold parseStatus at h
  split at h
  · next hfirst =>
    cases h
    exact Line.isKnown_of_first hfirst
  · split at h <;> cases h
    next htext => exact StatusText.isKnown_of_parse htext

theorem isKnown_of_parseData (h : parseData maxLiteral s = .error m) : m.fault.IsKnown := by
  unfold parseData at h
  split at h <;> cases h
  next hparse => exact Scan.isKnown_of_run hparse

theorem isKnown_of_kind (h : kind s = .wrong m) : m.fault.IsKnown := by
  unfold kind at h
  split at h
  · cases h
  · simp only at h
    split at h
    · cases h
      trivial
    · split at h
      · split at h
        · cases h
        · split at h <;> cases h
          trivial
      · cases h
        trivial

theorem refusesKnown_grammar (config : Config) : (grammar config).RefusesKnown := by
  intro g g' s m h
  change parse config.limits.maxLiteralLength s = (g', .error m) at h
  unfold parse at h
  split at h
  · exact isKnown_of_parseContinuation (Prod.mk.inj h).2
  · exact isKnown_of_parseStatus (Prod.mk.inj h).2
  · next hkind =>
    cases h
    exact isKnown_of_kind hkind
  · split at h
    · cases h
    · exact isKnown_of_parseData (Prod.mk.inj h).2

end Response

namespace Command

theorem isKnown_of_parseVerb {tag : Bytes} {uid : Bool}
    (h : parseVerb maxLiteral tag uid s = .error m) : m.fault.IsKnown := by
  unfold parseVerb at h
  simp only at h
  split at h
  · cases h
    trivial
  · split at h
    · cases h
    · split at h <;> cases h
      next hparse => exact Scan.isKnown_of_run hparse
    · cases h
      trivial

theorem refusesKnown_grammar (config : Config) : (grammar config).RefusesKnown := by
  intro g g' s m h
  replace h : parse config.limits.maxLiteralLength s = .error m := (Prod.mk.inj h).2
  unfold parse at h
  simp only at h
  split at h
  · cases h
    trivial
  · split at h
    · cases h
      trivial
    · split at h
      · split at h
        · split at h
          · exact isKnown_of_parseVerb h
          · cases h
            trivial
        · exact isKnown_of_parseVerb h
      · cases h
        trivial

end Command

end Imap

/-! ## POP3 -/

namespace Pop3

theorem Command.refusesKnown_grammar (config : Config) : (grammar config).RefusesKnown := by
  intro g g' s m h
  replace h : parse s = .error m := (Prod.mk.inj h).2
  unfold parse at h
  split at h
  · next hfirst =>
    cases h
    exact Line.isKnown_of_first hfirst
  · simp only at h
    split at h <;> cases h
    trivial

namespace Response

theorem isKnown_of_parseText {s : Bytes} {fault : Fault} (h : parseText s = .error fault) :
    fault.IsKnown := by
  unfold parseText at h
  split at h
  · simp only at h
    split at h
    · cases h
      trivial
    · split at h <;> cases h
      trivial
  · cases h

theorem isKnown_of_parseLine {r r' : Reading} {content : Bytes} {fault : Fault}
    (h : parseLine r content = (r', .error fault)) : fault.IsKnown := by
  unfold parseLine at h
  split at h
  · cases h
  · split at h
    · cases h
    · unfold parseStatus at h
      simp only at h
      split at h
      · split at h <;> cases h
        next htext => exact isKnown_of_parseText htext
      · split at h <;> cases h
        trivial

theorem refusesKnown_grammar (config : Config) : (grammar config).RefusesKnown := by
  intro g g' s m h
  change parse g s = (g', .error m) at h
  unfold parse at h
  split at h
  · next hfirst =>
    cases h
    exact Line.isKnown_of_first hfirst
  · split at h <;> cases h
    next hline => exact isKnown_of_parseLine hline

end Response

end Pop3

/-! ## Receivers -/

variable {γ υ : Type} {G : Grammar γ υ}

namespace Reception

/-- What comes of asking the grammar is refused for a fault that the grammar has found. -/
theorem isKnown_of_parse (hG : G.RefusesKnown) {g : γ} {buffer bytes : Bytes} {required : Nat}
    {m : Malformed} {r' : Reception γ}
    (h : parse G g buffer bytes required = .inr (.error m, r')) : m.fault.IsKnown := by
  have hasked := asked_parse G g buffer bytes required
  rw [h] at hasked
  generalize hb : (Sum.inr (.error m, r') : Reception γ ⊕ Report γ υ) = b at hasked
  cases hasked with
  | complete | incomplete | announced => cases hb
  | refused hparse =>
    cases hb
    have hknown := hG hparse
    exact hknown

theorem isKnown_of_step (hG : G.RefusesKnown) {r r' : Reception γ} {m : Malformed}
    (h : step G r = .inr (.error m, r')) : m.fault.IsKnown := by
  obtain ⟨g, fragment, buffer⟩ := r
  cases fragment with
  | discarding what =>
    rcases step_skip_cases (G := G) g what buffer with ⟨f, rest, hskip, -⟩ | ⟨n, what', hskip⟩
    · cases h.symm.trans hskip
    · cases h.symm.trans hskip
  | leftover bytes =>
    have hparse : parse G g buffer bytes 0 = .inr (.error m, r') := h
    exact isKnown_of_parse hG hparse
  | gathering bytes required =>
    have hcases := gatheringStep_step G g bytes required buffer
    rw [h] at hcases
    generalize hb : (Sum.inr (.error m, r') : Reception γ ⊕ Report γ υ) = b at hcases
    cases hcases with
    | takes => exact isKnown_of_parse hG hb.symm
    | needMore => cases hb
    -- the one fault that the grammar has not found
    | long | overflow =>
      cases hb
      trivial

theorem isKnown_of_advance (hG : G.RefusesKnown) {r r' : Reception γ} {m : Malformed}
    (h : advance G r = (.error m, r')) : m.fault.IsKnown := by
  have hend : ∀ m, (advance G r).1 = .error m → m.fault.IsKnown := by
    refine iterate_induction (P := fun _ => True)
      (Q := fun b : Report γ υ => ∀ m, b.1 = .error m → m.fault.IsKnown) ?_ ?_ r trivial
    · exact fun _ _ _ _ => trivial
    · rintro a ⟨o, r'⟩ - hstep m rfl
      exact isKnown_of_step hG hstep
  exact hend m (congrArg Prod.fst h)

end Reception

/-- A receiver refuses nothing but for a fault with a wording of its own. -/
theorem Receiver.isKnown_of_receive (hG : G.RefusesKnown) {r r' : Receiver γ} {t t' : Transport}
    {m : Malformed} (h : r.receive G t = (.error m, r', t')) : m.fault.IsKnown := by
  rcases hadv : Reception.advance G (r.reception t) with ⟨o, out⟩
  rw [receive, hadv] at h
  obtain rfl : o = .error m := (Prod.mk.inj h).1
  exact Reception.isKnown_of_advance hG hadv

end MailProtocol
