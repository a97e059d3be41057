import MailProtocol.Reception
import MailProtocol.Transport

/-!
# Receivers

A receiver owns the state of a grammar and the fragment for one direction of a connection. It takes
what a transport has buffered and never reads from the stream itself.
-/

namespace MailProtocol

/-- The state of a grammar and the fragment. -/
structure Receiver (γ : Type) where
  state : γ
  fragment : Fragment := .empty
deriving DecidableEq, Repr

namespace Receiver

variable {γ υ : Type}

/-- The reception of what a transport has buffered. -/
def reception (r : Receiver γ) (t : Transport) : Reception γ := { r with buffer := t.buffer }

/-- The receiver that a reception leaves. -/
def ofReception (r : Reception γ) : Receiver γ := ⟨r.state, r.fragment⟩

/-- Report once from what the transport has buffered. -/
def receive (G : Grammar γ υ) (r : Receiver γ) (t : Transport) :
    Except Malformed (Outcome υ) × Receiver γ × Transport :=
  let (result, out) := Reception.advance G (r.reception t)
  (result, ofReception out, { t with buffer := out.buffer })

/-- Report from what the transport has buffered until more bytes are needed. -/
def drain {G : Grammar γ υ} (hG : G.Lawful) (r : Receiver γ) (t : Transport) :
    List (Except Malformed υ) × Bool × Receiver γ × Transport :=
  let (results, goAhead, out) := Reception.drain hG (r.reception t)
  (results, goAhead, ofReception out, { t with buffer := out.buffer })

/-- Reporting that nothing can be done leaves no more to be done, and announcing a literal less. -/
theorem size_receive_le (G : Grammar γ υ) (r : Receiver γ) (t : Transport) :
    match r.receive G t with
    | (.ok (.needMore _), r', t') => t'.remaining = t.remaining ∧
      2 * t'.buffer.length + r'.fragment.weight ≤ 2 * t.buffer.length + r.fragment.weight
    | (.ok (.continuing _ _), r', t') => t'.remaining = t.remaining ∧
      2 * t'.buffer.length + r'.fragment.weight < 2 * t.buffer.length + r.fragment.weight
    | _ => True := by
  have h := Reception.shrinks_advance (G := G) (r.reception t)
  simp only [receive]
  generalize Reception.advance G (r.reception t) = a at h ⊢
  obtain ⟨_ | ⟨_ | _ | _⟩, out⟩ := a <;>
    simp_all [Reception.Shrinks, Reception.size, reception, ofReception, Transport.remaining]

/-- Forget the unit that was being received, and what the grammar kept from earlier ones. -/
def reset (G : Grammar γ υ) (r : Receiver γ) : Receiver γ := { state := G.reset r.state }

end Receiver

end MailProtocol
