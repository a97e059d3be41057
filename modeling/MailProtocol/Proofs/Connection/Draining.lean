import MailProtocol.Imap.Endpoint
import MailProtocol.Pop3.Endpoint
import MailProtocol.Proofs.Connection.Edits
import MailProtocol.Proofs.Reception.Rounds

/-!
# Draining ends

A connection uses its receiver only in ways in which a receiver comes about (`Edits.reached`), so
wherever its buffer is drained, the receiver is at rest. So the draining goes on for at most one
result for each line feed that is there, and one (`Endpoint.DrainsByLine`).
-/

namespace MailProtocol

variable {γ υ δ ω : Type} {E : Endpoint γ υ δ ω} {op : Operation γ δ ω}

namespace Connection

/-- An edit uses the receiver in one of the ways in which a receiver comes about. -/
theorem Edit.reached {c c' : Connection γ υ δ} (hc : Receiver.Reached E.grammar c.receiver)
    (h : Edit E op c c') : Receiver.Reached E.grammar c'.receiver := by
  cases h with
  | aside _ _ hreceiver _ => exact hreceiver ▸ hc
  | remark | attach | upgrade | upgradeFails | meanwhile | uses | useFails => exact hc
  | @mapState f => exact hc.setState f
  | @receives t t' r o _ h =>
    have hnext := hc.receive t
    rwa [h] at hnext
  | @refuses t t' r m _ h =>
    have hnext := hc.receive t
    rwa [h] at hnext
  | close => exact hc.reset

theorem Edits.reached {c c' : Connection γ υ δ} (h : Edits E op c c')
    (hc : Receiver.Reached E.grammar c.receiver) : Receiver.Reached E.grammar c'.receiver :=
  h.keeps (P := fun c => Receiver.Reached E.grammar c.receiver) (fun _ _ => Edit.reached) hc

theorem reached_run {c : Connection γ υ δ} (hc : Receiver.Reached E.grammar c.receiver)
    (ops : List (Operation γ δ ω)) : Receiver.Reached E.grammar (c.run E ops).receiver := by
  induction ops generalizing c with
  | nil => exact hc
  | cons op ops ih => exact ih ((edits_operate E c op).reached hc)

end Connection

/-- Connections drain what has been read line by line. -/
structure Endpoint.DrainsByLine (E : Endpoint γ υ δ ω) : Prop where
  /-- The receiver of a connection that was new has come about by the uses that are listed for
  receivers, whatever has been done with the connection. -/
  reached : ∀ (label : LogLabel) (chunkSize : Nat) (state : γ) (writer : δ)
    (ops : List (Operation γ δ ω)), Receiver.Reached E.grammar
      ((Connection.new label chunkSize state writer : Connection γ υ δ).run E ops).receiver
  /-- So it has where the buffer is drained, which is when waiting has ended. -/
  reachedWaiting : ∀ {c : Connection γ υ δ}, Receiver.Reached E.grammar c.receiver →
    Receiver.Reached E.grammar ((c.settleGoAhead E).2.wait E).2.receiver
  /-- From there on the receiver is asked until it has nothing more to give, which it does at most
  once for each line feed in the buffer, and once more. -/
  drain : ∀ {c : Connection γ υ δ} {t : Transport}, Receiver.Reached E.grammar c.receiver →
    c.link = .connected t → ∃ results goAhead r', (c.drain E).queue = c.queue ++ results
      ∧ EndsAfter (Reception.drainStep E.grammar) results.length ([], c.receiver.reception t)
        (results, goAhead, r')
      ∧ results.length ≤ t.buffer.count Byte.lf + 1

/-- Connections whose grammar keeps pace drain line by line. -/
theorem Endpoint.drainsByLine (hG : E.grammar.Paced) : E.DrainsByLine where
  reached _ _ state _ ops := Connection.reached_run (.start state) ops
  reachedWaiting {c} hc :=
    have hsettle : Connection.Edits E .receive c _ := Connection.edits_settleGoAhead c
    have hwait : Connection.Edits E .receive (c.settleGoAhead E).2 _ := Connection.edits_wait _
    hwait.reached (hsettle.reached hc)
  drain {c t} hc hl := by
    obtain ⟨hle, hends⟩ := Reception.exists_endsAfter_drain E.lawful hG
      (r := c.receiver.reception t) (hc.rests hG)
    rcases hdrain : Reception.drain E.lawful (c.receiver.reception t) with ⟨results, goAhead, r'⟩
    rw [hdrain] at hle hends
    obtain ⟨log, hlog⟩ := Connection.drain_eq hl hdrain
    exact ⟨results, goAhead, r', by rw [hlog], hends, hle⟩

/-- Receiving ends. Whatever a grammar answers and whatever the slots of a receive loop say, the
loop reports after finitely many rounds, and where the slots are those of a fragment it reports what
the reception does. Connections of servers and clients of both protocols drain what has been read in
as many steps as there are lines, and one. -/
theorem receiving_ends (config : Config) :
    (∀ {γ υ : Type} (G : Grammar γ υ) (l : ReceiveLoop γ), ∃ n ≤ 2 * l.buffer.length + 2,
        EndsAfter (ReceiveLoop.round G) n l (ReceiveLoop.advance G l))
      ∧ (∀ {γ υ : Type} (G : Grammar γ υ) (r : Reception γ),
        ReceiveLoop.advance G r.loop = (Reception.advance G r).loop)
      ∧ (Imap.serverEndpoint config).DrainsByLine ∧ (Imap.clientEndpoint config).DrainsByLine
      ∧ (Pop3.serverEndpoint config).DrainsByLine ∧ (Pop3.clientEndpoint config).DrainsByLine :=
  ⟨ReceiveLoop.exists_endsAfter_round, fun _ => ReceiveLoop.advance_loop,
    Endpoint.drainsByLine (Imap.Command.paced_grammar config),
    Endpoint.drainsByLine (Imap.Response.paced_grammar config),
    Endpoint.drainsByLine (Pop3.Command.paced_grammar config),
    Endpoint.drainsByLine (Pop3.Response.paced_grammar config)⟩

end MailProtocol
