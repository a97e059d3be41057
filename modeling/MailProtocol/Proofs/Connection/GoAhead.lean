import MailProtocol.Imap.Endpoint
import MailProtocol.Pop3.Endpoint
import MailProtocol.Proofs.Connection.Delivery

/-!
# Asking for literals

A server asks for each synchronising literal exactly once, and not before everything that came
before the literal has been returned (`Imap.asksOnce_run`). All that receiving writes is such a
request, and where there are none to be made it writes nothing (`Connection.output_receive`).
-/

namespace MailProtocol

variable {γ υ δ ω : Type}

/-! ## The side that does not ask -/

namespace Connection

variable {E : Endpoint γ υ δ ω}

theorem output_takeQueued (c : Connection γ υ δ) : c.takeQueued.2.output = c.output := by
  rw [takeQueued]
  split
  · rfl
  · split <;> rfl

theorem output_drain (c : Connection γ υ δ) : (c.drain E).output = c.output := by
  rcases hl : c.link with _ | t | _
  · rw [drain, hl]
  · obtain ⟨log, hlog⟩ := drain_eq (E := E) hl rfl
    rw [hlog]
  · rw [drain, hl]

theorem output_fill (c : Connection γ υ δ) : (c.fill E).2.output = c.output := by
  have hclose : ∀ c : Connection γ υ δ, (c.close E).output = c.output := fun c => (shut_close E c).2
  rw [fill]
  split
  · rfl
  · rfl
  · split
    · simp only
      split
      · exact hclose _
      · rfl
    · simp only
      split
      · rfl
      · split
        · rfl
        · exact hclose _

section
variable (hnone : E.grammar.continuationRequest = none)

include hnone

theorem output_poll (c : Connection γ υ δ) :
    (∀ c', c.poll E = .inl c' → c'.output = c.output)
      ∧ ∀ b, c.poll E = .inr b → b.2.output = c.output := by
  rw [poll]
  split
  · simp
  · simp
  · simp only [sendGoAhead, hnone]
    rcases c.receiver.receive E.grammar _ with ⟨_ | ⟨_ | _ | ⟨_, _ | _⟩⟩, receiver, t⟩
    · simp [warnMalformed, warn, note]
    · simp
    · have hfill := output_fill (E := E) { c with receiver, link := .connected t }
      simp only
      generalize fill E _ = b at hfill ⊢
      obtain ⟨_ | _ | _, c'⟩ := b <;> simpa using hfill
    · simp
    · simp

/-- Receiving writes nothing if there is no way to ask for a literal. -/
theorem output_receive (c : Connection γ υ δ) : (c.receive E).2.output = c.output := by
  have hwait : ∀ c : Connection γ υ δ, (c.wait E).2.output = c.output := by
    intro c
    refine iterate_induction (P := fun a => a.output = c.output)
      (Q := fun b : Polled γ υ δ => b.2.output = c.output) ?_ ?_ c rfl
    · exact fun a a' ha hstep => ((output_poll hnone a).1 a' hstep).trans ha
    · exact fun a b ha hstep => ((output_poll hnone a).2 b hstep).trans ha
  have hfetch : ∀ c : Connection γ υ δ, (c.fetch E).2.output = c.output := by
    intro c
    rw [← hwait c, fetch]
    rcases c.wait E with ⟨_ | _ | result, c'⟩
    · rfl
    · rfl
    · exact (output_takeQueued _).trans (output_drain _)
  rw [receive]
  split
  · exact output_takeQueued c
  · split
    · rfl
    · simp only [settleGoAhead, sendGoAhead, hnone]
      cases c.goAheadPending
      · exact hfetch c
      · exact hfetch _

end

end Connection

/-! ## The side that asks -/

namespace Session

variable {E : Endpoint γ υ δ ω} {g : γ} {chunk : Nat} {s : Session γ υ δ} {t : Transport}
  {done : List Read} {past : List (Reported υ)}

/-- The literals among these reports that the peer waits to be asked for, each as the request for
it and the number of units and refusals before it. -/
def due (request : Bytes) (os : List (Reported υ)) : List (Bytes × Nat) :=
  (Reported.dues 0 os).map (request, ·)

/-- The reports that the connection's receiver has made so far, and what it has written for them:
each request once, when all that came before the literal had been returned, save that the last one
may be pending. -/
structure Asks (E : Endpoint γ υ δ ω) (g : γ) (chunk : Nat) (request : Bytes) (s : Session γ υ δ)
    (past : List (Reported υ)) : Prop where
  /-- A bare receiver makes the same reports first. -/
  reported : past <+: Receiver.reports E.lawful g chunk (Read.pieces s.input)
  /-- What is reported from now on is what follows them. -/
  later : ∀ t, s.connection.link = .connected t → ∀ pieces,
    Reception.feed E.lawful { state := g, buffer := [] } (Read.pieces s.done ++ pieces)
      = past ++ Reception.feed E.lawful (s.connection.receiver.reception t) pieces
  returned : Reported.results past = s.returned ++ s.connection.queue
  requests : s.requests ++ (if s.connection.goAheadPending
      then [(request, (s.returned ++ s.connection.queue).length)] else []) = due request past

/-- The connection asks for literals as it should. -/
structure AsksOnce (E : Endpoint γ υ δ ω) (g : γ) (chunk : Nat) (request : Bytes)
    (s : Session γ υ δ) : Prop where
  isOpen : s.connection.isOpen → ∃ past, Asks E g chunk request s past
  /-- Every call of an open connection returns the next result, or says why there is none. -/
  answers : s.connection.isOpen → Answers E g chunk s (s.connection.receive E).1
  /-- At the end nothing is left to be asked for. -/
  ended : s.connection.isOpen = false →
    s.requests = due request (Receiver.reports E.lawful g chunk (Read.pieces s.input))
  /-- Nothing is pending when a call finds nothing to read. -/
  paused : (s.connection.receive E).1 = .ok none ∨ (s.connection.receive E).1 = .error .timeout →
    let s' := s.perform E (.receive : Call ω)
    s'.connection.goAheadPending = false
      ∧ s'.requests = due request (Receiver.reports E.lawful g chunk (Read.pieces s'.done))

theorem asked_eq {request : Bytes} (hrequest : E.requests 1 = [request]) (dues : List Nat) :
    E.asked dues = dues.map (request, ·) := by
  rw [Endpoint.asked, hrequest]
  exact List.map_eq_flatMap.symm

theorem Live.asks (h : Live E g chunk s t done past) {request : Bytes}
    (hrequest : E.requests 1 = [request]) : Asks E g chunk request s past := by
  refine ⟨?_, ?_, h.results, ?_⟩
  · rw [reports_eq h.fit_input]
    exact h.prefix_heard
  · intro t' hlink pieces
    obtain rfl : t = t' := Link.connected.inj (h.link.symm.trans hlink)
    rw [h.done_eq]
    exact h.runs.reaches E.lawful pieces
  · obtain ⟨dues, hrequests, howed⟩ := h.requests
    rw [due, ← howed, hrequests, asked_eq hrequest, List.map_append, Connection.owed]
    split <;> rfl

theorem Live.asksOnce (h : Live E g chunk s t done past) {request : Bytes}
    (hrequest : E.requests 1 = [request]) : AsksOnce E g chunk request s := by
  refine ⟨fun _ => ⟨past, h.asks hrequest⟩, fun _ => h.answers, ?_, ?_⟩
  · rw [h.isOpen_eq]
    intro hclosed
    cases hclosed
  · have hreceived := Connection.received (E := E) h.link h.writable
    generalize hreceive : s.connection.receive E = b at hreceived ⊢
    intro hnothing
    cases hreceived with
    | @handed result => cases result <;> rcases hnothing with h | h <;> cases h
    | @blocked rs os c' t' hmoves hpending hqueue hstarved =>
      have hlive := h.of_nothing hmoves (by cases s.connection.idle <;> rfl) hreceive
      have hconnection : (s.perform E (.receive : Call ω)).connection = c' := by
        rw [Session.perform, hreceive]
      have hasks := (hlive.asks hrequest).requests
      rw [hconnection, hpending, if_neg Bool.false_ne_true, List.append_nil] at hasks
      refine ⟨(congrArg _ hconnection).trans hpending, hasks.trans (congrArg (due request) ?_)⟩
      show _ = Receiver.reports E.lawful g chunk
        (Read.pieces (s.perform E (.receive : Call ω)).done)
      rw [hlive.done_eq, reports_eq hlive.fit, hlive.feed_eq (hconnection ▸ hstarved)]
    | ended _ _ _ _ _ he =>
      rcases hnothing with h | h <;> cases h
      cases he

theorem Ended.asksOnce (h : Ended E g chunk s) {request : Bytes}
    (hrequest : E.requests 1 = [request]) : AsksOnce E g chunk request s := by
  refine ⟨?_, ?_, fun _ => ?_, ?_⟩
  · rw [h.closed.isOpen_eq]
    exact nofun
  · rw [h.closed.isOpen_eq]
    exact nofun
  · rw [reports_eq h.fit, h.requests, asked_eq hrequest]
    rfl
  · rw [h.closed.receive_eq]
    rintro (h | h) <;> cases h

end Session

namespace Imap

/-- The line that asks a client for a literal. -/
def requestLine (config : Config) : Bytes :=
  Bytes.ascii "+ " ++ Utf8.encode config.imap.continuationPrompt ++ Bytes.crlf

theorem requests_serverEndpoint (config : Config) :
    (serverEndpoint config).requests 1 = [requestLine config] := by
  rfl

/-- A server that is new asks for each synchronising literal once, and not too early, whatever
calls its user makes. No other side ever writes while it receives. -/
theorem asksOnce_run (config : Config) (id : String) {stream : Stream} (hw : stream.Writable)
    {calls : List (Call Response)} (hcalls : ∀ call ∈ calls, call.Safe ∧ call.Sure) :
    ((Session.start (serverConnection config id) stream).run (serverEndpoint config) calls).AsksOnce
        (serverEndpoint config) () config.limits.readChunkSize (requestLine config)
      ∧ (∀ c : Connection Bool Response Command.Writer,
        (c.receive (clientEndpoint config)).2.output = c.output)
      ∧ (∀ c : Connection Unit Pop3.Command Unit,
        (c.receive (Pop3.serverEndpoint config)).2.output = c.output)
      ∧ ∀ c : Connection Pop3.Response.Reading Pop3.Response Unit,
        (c.receive (Pop3.clientEndpoint config)).2.output = c.output := by
  refine ⟨?_, Connection.output_receive rfl, Connection.output_receive rfl,
    Connection.output_receive rfl⟩
  have hfresh : (serverConnection config id).Fresh () := ⟨rfl, rfl, rfl, rfl⟩
  obtain ⟨t, hstart⟩ := Session.Live.start (E := serverEndpoint config) hfresh hw
  rcases Session.run_sure (.inl ⟨t, [], [], hstart⟩) hcalls with ⟨t', done, past, h⟩ | h
  · exact h.asksOnce (requests_serverEndpoint config)
  · exact h.asksOnce (requests_serverEndpoint config)

/-- A literal is announced behind a command, so it is asked for when the command has been
returned. -/
theorem asksOnce_run_login :
    let stream : Stream := { incoming := [.data (Bytes.ascii "a NOOP\r\nb LOGIN \x7b3\x7d\r\n"),
      .failure .nothingYet, .data (Bytes.ascii "joe\r\n")] }
    let calls : List (Call Response) := [.receive, .setIdle true, .receive, .receive]
    let s := (Session.start (serverConnection {} "1") stream).run (serverEndpoint {}) calls
    stream.Writable ∧ (∀ call ∈ calls, call.Safe ∧ call.Sure)
      ∧ s.requests = [(requestLine {}, 1)]
      ∧ s.returned = [
        .ok { tag := Bytes.ascii "a", verb := Bytes.ascii "NOOP" },
        .ok { tag := Bytes.ascii "b", verb := Bytes.ascii "LOGIN"
              args := [.literal (Bytes.ascii "joe") false], continuation := true }]
      ∧ s.AsksOnce (serverEndpoint {}) () 4096 (requestLine {}) := by
  intro stream calls s
  have hw : stream.Writable := ⟨List.forall_mem_nil _, rfl⟩
  have hcalls : ∀ call ∈ calls, call.Safe ∧ call.Sure := by
    simp only [calls, List.forall_mem_cons]
    exact ⟨⟨trivial, trivial⟩, ⟨trivial, trivial⟩, ⟨trivial, trivial⟩, ⟨trivial, trivial⟩,
      List.forall_mem_nil _⟩
  exact ⟨hw, hcalls, by decide +kernel, by decide +kernel,
    (asksOnce_run {} "1" hw hcalls).1⟩

end Imap

end MailProtocol
