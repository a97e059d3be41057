import MailProtocol.Receiver

/-!
# Receiving to the end of a stream

`Receiver.pump` is the loop around a receiver: it asks for reports, reads from the stream whenever
more bytes are needed, and ends with the stream. `Reception.trace` is the same loop over bytes that
are all there already.

Both say with each report which bytes are still ahead, so a report also tells how much of the input
has been used up by then.
-/

namespace MailProtocol

variable {γ υ : Type} {G : Grammar γ υ}

/-- Bytes that the stream has yet to give. -/
def Stream.unread (s : Stream) : Bytes :=
  s.incoming.flatMap fun
    | .data d => d
    | .failure _ => []

/-- Bytes that have not been taken yet: those that are there, and those that are yet to come. -/
def Transport.ahead (t : Transport) : Bytes := t.buffer ++ (t.stream.map Stream.unread).getD []

/-- A report, and the bytes that are still ahead. -/
abbrev Delivery (υ : Type) := Except Malformed (Outcome υ) × Bytes

/-! ## Bytes that are all there -/

namespace Reception

/-- The reports until more bytes are needed. -/
def trace (hG : G.Lawful) (r : Reception γ) : List (Delivery υ) :=
  match _h : advance G r with
  | (.ok (.needMore _), _) => []
  | (.ok (.complete unit), r') => (.ok (.complete unit), r'.buffer) :: trace hG r'
  | (.ok (.continuing missing goAhead), r') =>
    (.ok (.continuing missing goAhead), r'.buffer) :: trace hG r'
  | (.error report, r') => (.error report, r'.buffer) :: trace hG r'
termination_by (r.total, r.size)
decreasing_by
  all_goals
    have hs := shrinks_advance (G := G) r
    rw [_h] at hs
  · exact Prod.Lex.left _ _ (hs hG)
  · rcases Nat.lt_or_eq_of_le hs.2 with hlt | heq
    · exact Prod.Lex.left _ _ hlt
    · exact heq ▸ Prod.Lex.right _ hs.1
  · exact Prod.Lex.left _ _ hs

/-- One report of the trace. -/
theorem trace_eq (hG : G.Lawful) (r : Reception γ) :
    trace hG r = match advance G r with
      | (.ok (.needMore _), _) => []
      | (result, r') => (result, r'.buffer) :: trace hG r' := by
  rw [trace]
  split <;> simp_all

end Reception

/-! ## Bytes that come from a stream -/

namespace Receiver

/-- A receiver reports what its reception does, and takes bytes from the transport's buffer only. -/
theorem advance_of_receive {r r' : Receiver γ} {t t' : Transport}
    {result : Except Malformed (Outcome υ)} (h : r.receive G t = (result, r', t')) :
    Reception.advance G (r.reception t) = (result, r'.reception t') ∧ t'.stream = t.stream := by
  unfold receive at h
  obtain ⟨rfl, rfl, rfl⟩ := by simpa only [Prod.mk.injEq] using h
  exact ⟨rfl, rfl⟩

/-- A receiver leaves the stream alone, and its reports shrink the reception. -/
theorem shrinks_receive {r r' : Receiver γ} {t t' : Transport}
    {result : Except Malformed (Outcome υ)} (h : r.receive G t = (result, r', t')) :
    t'.remaining = t.remaining
      ∧ Reception.Shrinks G (r.reception t) (.inr (result, r'.reception t')) := by
  obtain ⟨hadv, hstream⟩ := advance_of_receive h
  refine ⟨by rw [Transport.remaining, hstream, Transport.remaining], ?_⟩
  rw [← hadv]
  exact Reception.shrinks_advance (r.reception t)

/-- What is still to come, and what is there. -/
def workload (r : Receiver γ) (t : Transport) : Nat :=
  2 * t.remaining + (r.reception t).total

/-- Reading moves what is still to come to what is there. -/
theorem workload_of_fill {t t' : Transport} {n : Nat} (r : Receiver γ)
    (h : t.fill = (.ok (n + 1), t')) :
    r.workload t' ≤ r.workload t ∧ t'.remaining < t.remaining := by
  have := Transport.remaining_of_fill h
  simp only [workload, Reception.total, reception]
  omega

/-- The reports until the stream has ended, or reading it fails. -/
def pump (hG : G.Lawful) (r : Receiver γ) (t : Transport) : List (Delivery υ) :=
  match _h : r.receive G t with
  | (.ok (.needMore _), r', t') =>
    match _hf : t'.fill with
    | (.ok (_ + 1), t'') => pump hG r' t''
    | _ => []
  | (.ok (.complete unit), r', t') => (.ok (.complete unit), t'.ahead) :: pump hG r' t'
  | (.ok (.continuing missing goAhead), r', t') =>
    (.ok (.continuing missing goAhead), t'.ahead) :: pump hG r' t'
  | (.error report, r', t') => (.error report, t'.ahead) :: pump hG r' t'
termination_by (r.workload t, t.remaining, (r.reception t).size)
decreasing_by
  all_goals
    obtain ⟨hrem, hs⟩ := shrinks_receive _h
  -- a read leaves no more to do than there was, and less to read
  · have := workload_of_fill r' _hf
    have hle : r'.workload t' ≤ r.workload t := by
      simp only [workload, hrem]
      have := hs.2
      omega
    rcases Nat.lt_or_eq_of_le (Nat.le_trans this.1 hle) with hlt | heq
    · exact Prod.Lex.left _ _ hlt
    · exact heq ▸ Prod.Lex.right _ (Prod.Lex.left _ _ (hrem ▸ this.2))
  -- a unit takes bytes away for good
  · have := hs hG
    exact Prod.Lex.left _ _ (by simp only [workload, hrem]; omega)
  -- an announcement gathers bytes that were there, so only what is unread may get less
  · rw [workload, workload, hrem]
    rcases Nat.lt_or_eq_of_le hs.2 with hlt | heq
    · exact Prod.Lex.left _ _ (by omega)
    · exact heq ▸ Prod.Lex.right _ (Prod.Lex.right _ hs.1)
  · have : (r'.reception t').total < (r.reception t).total := hs
    exact Prod.Lex.left _ _ (by simp only [workload, hrem]; omega)

end Receiver

end MailProtocol
