import MailProtocol.Proofs.Connection.ByLine
import MailProtocol.Proofs.Connection.Outgoing
import MailProtocol.Proofs.Connection.Survival
import MailProtocol.Proofs.Pop3.Framing

/-!
# A command that cannot be sent

`sendCommand` puts the expectation in place and then sends the command. What is left if that fails
depends on why it does (`Fails`). If the command cannot be written, then the connection is closed,
and its grammar starts afresh. If there is no stream, then the expectation stays, for a command that
the server will never see. On a connection that is closed already this does no harm, since nothing
is ever received from it. On one that has no stream yet it does (`Arms`): when a stream is attached,
its first status begins a body, and the lines behind it are read as lines of that body
(`receive_probing`). That is the only case (`armsNothing_iff`).
-/

namespace MailProtocol

namespace Pop3

/-- The client, but that it expects a body behind the next status, or does not. -/
def expecting (c : Connection Response.Reading Response Unit) (expects : Bool) :
    Connection Response.Reading Response Unit :=
  c.mapState ({ · with expectsBody := expects })

/-- Whatever is done from here on, the client receives the same as if this were what it expects. -/
def ReceivesAs (config : Config) (c : Connection Response.Reading Response Unit) (expects : Bool) :
    Prop :=
  ∀ ops : List (Operation Response.Reading Unit Command),
    ((c.run (clientEndpoint config) ops).receive (clientEndpoint config)).1
      = (((expecting c expects).run (clientEndpoint config) ops).receive (clientEndpoint config)).1

/-- On the way from `c` to `c'` the client has got no expectation that is ever noticed: it receives
the same as if it expected no body, or what it expected before. -/
def ArmsNothing (config : Config) (c c' : Connection Response.Reading Response Unit) : Prop :=
  ∃ expects, (expects = false ∨ expects = c.receiver.state.expectsBody)
    ∧ ReceivesAs config c' expects

/-- The command brings a body, no body is expected, and there is no stream yet to send it on. -/
def Arms (c : Connection Response.Reading Response Unit) (command : Command) : Prop :=
  c.lifecycle = .unconnected ∧ command.expectsMultiline = true
    ∧ c.receiver.state.expectsBody = false

variable {config : Config} {c c' : Connection Response.Reading Response Unit} {command : Command}
  {t : Transport}

/-! ## What a failure leaves -/

/-- Without a stream the expectation is all that changes. -/
theorem sendCommand_of_link (hl : c.link.transport? = none) :
    sendCommand config c command
      = (.error (if c.lifecycle = .unconnected then .notConnected else .closed),
        expecting c command.expectsMultiline) := by
  have hopen : (expecting c command.expectsMultiline).openError? = c.openError? := rfl
  show (expecting c command.expectsMultiline).send _ _ = _
  rw [Connection.send, hopen, Connection.openError?, Connection.lifecycle]
  rcases hlink : c.link with _ | t | _
  · rfl
  · rw [hlink] at hl
    cases hl
  · rfl

/-- A command that fails over a stream closes the connection, and nothing is expected. -/
theorem shut_of_sendCommand (hl : c.link = .connected t) (hpending : c.pending = []) {e : Error}
    (h : sendCommand config c command = (.error e, c')) :
    c'.Shut ∧ c'.receiver.state = {} := by
  have hsend : sendCommand config c command
      = (expecting c command.expectsMultiline).sendSegment (clientEndpoint config)
        command.write.first [] := by
    have hopen : (expecting c command.expectsMultiline).openError? = none := by
      show c.openError? = none
      rw [Connection.openError?, hl]
    show (expecting c command.expectsMultiline).send _ _ = _
    rw [Connection.send, hopen]
    refine if_neg ?_
    show ¬c.isAwaiting = true
    simp [Connection.isAwaiting, hpending]
  rw [hsend] at h
  have hreceiver := Connection.receiver_of_sendSegment_error (clientEndpoint config)
    (c := expecting c command.expectsMultiline) hl h
  rcases Connection.sendSegment_cases (clientEndpoint config)
    (c := expecting c command.expectsMultiline) hl command.write.first [] with
    ⟨t', heq, -⟩ | ⟨e', c'', heq, hbreaks⟩
  · cases heq.symm.trans h
  · obtain ⟨-, rfl⟩ := Prod.mk.inj (heq.symm.trans h)
    exact ⟨hbreaks.shut, congrArg Receiver.state hreceiver⟩

/-- What is left of a command that cannot be sent. -/
inductive Fails (c : Connection Response.Reading Response Unit) (command : Command) :
    Except Error SendOutcome × Connection Response.Reading Response Unit → Prop
  /-- It cannot be written. -/
  | breaks {e : Error} {c' : Connection Response.Reading Response Unit} (hopen : c.isOpen)
    (hshut : c'.Shut) (hstate : c'.receiver.state = {}) : Fails c command (.error e, c')
  | unconnected (hl : c.link = .unconnected) :
    Fails c command (.error .notConnected, expecting c command.expectsMultiline)
  | closed (hshut : c.Shut) :
    Fails c command (.error .closed, expecting c command.expectsMultiline)

/-- A command that cannot be sent has not been written, or there is no stream. -/
theorem fails_of_error (hc : c.Sound) (hpending : c.pending = []) {e : Error}
    (h : sendCommand config c command = (.error e, c')) : Fails c command (.error e, c') := by
  rcases hl : c.link with _ | t | _
  · rw [← h, sendCommand_of_link (by rw [hl]; rfl), Connection.lifecycle, hl]
    exact .unconnected hl
  · obtain ⟨hshut, hstate⟩ := shut_of_sendCommand hl hpending h
    exact .breaks (by rw [Connection.isOpen, hl]; rfl) hshut hstate
  · rw [← h, sendCommand_of_link (by rw [hl]; rfl), Connection.lifecycle, hl]
    exact .closed ⟨hc.cleared_of_link (by rw [hl]; rfl), hl⟩

theorem shut_expecting (h : c.Shut) (expects : Bool) : (expecting c expects).Shut :=
  ⟨⟨h.queue, h.pending, h.goAheadPending, h.fragment⟩, h.link⟩

/-- When the connection is closed, nothing is received, whatever is expected. -/
theorem receivesAs_of_shut (h : c.Shut) (expects : Bool) : ReceivesAs config c expects := by
  intro ops
  have hrefused : ∀ {c : Connection Response.Reading Response Unit}, c.Shut →
      ((c.run (clientEndpoint config) ops).receive (clientEndpoint config)).1 = .error .closed := by
    intro c h
    have hshut := (h.run (clientEndpoint config) ops).1
    rw [Connection.receive, hshut.queue, Connection.openError?, hshut.link]
    rfl
  rw [hrefused h, hrefused (shut_expecting h expects)]

/-! ## What the expectation does -/

/-- A lone dot, which ends the body if there is one, and two statuses. -/
def probe : List Bytes := [Bytes.ascii ".\r\n", Bytes.ascii "+OK\r\n", Bytes.ascii "+OK\r\n"]

/-- A stream is attached that brings these lines, and two of them are received. -/
def probing : List (Operation Response.Reading Unit Command) :=
  [.attach { staysOpen := true } none, .meanwhile (·.push (.data probe.flatten)), .receive,
    .receive]

/-- If a body is expected, then the second status is a line of it. -/
theorem lines_probe (hfit : 5 ≤ config.limits.maxLineLength) (expects inBody : Bool) :
    (Response.grammar config).Lines { expectsBody := expects, inBody } probe
      [.termination, .status .positive {},
        if expects then .line (Bytes.ascii "+OK") else .status .positive {}] where
  lineLocal := Response.lineLocal_grammar config
  isLine := by decide +kernel
  answers := by
    have hanswer {r r' : Response.Reading} {line : Bytes} {unit : Response}
        (hlength : line.length ≤ 5) (h : Response.parse r line = (r', .ok (.complete unit []))) :
        (Response.grammar config).answer r line = (some (.ok unit), r') :=
      Grammar.answer_of_parse (hlength.trans hfit) h
    have hdot : Response.parse { expectsBody := expects, inBody } (Bytes.ascii ".\r\n")
        = ({ expectsBody := expects }, .ok (.complete .termination [])) := rfl
    have hstatus : Response.parse { expectsBody := expects } (Bytes.ascii "+OK\r\n")
        = ({ inBody := expects }, .ok (.complete (.status .positive {}) [])) := by
      cases expects <;> decide +kernel
    have hlast : Response.parse { inBody := expects } (Bytes.ascii "+OK\r\n")
        = ({ inBody := expects }, .ok (.complete
          (if expects then .line (Bytes.ascii "+OK") else .status .positive {}) [])) := by
      cases expects <;> decide +kernel
    rw [probe, Grammar.answers, hanswer (by decide) hdot, Grammar.answers,
      hanswer (by decide) hstatus, Grammar.answers, hanswer (by decide) hlast]
    rfl

/-- When there is a stream to receive from, the expectation shows. -/
theorem receive_probing (hc : c.Sound) (hl : c.link = .unconnected)
    (hfit : 5 ≤ config.limits.maxLineLength) (expects : Bool) :
    (((expecting c expects).run (clientEndpoint config) probing).receive (clientEndpoint config)).1
      = .ok (some (if expects then .line (Bytes.ascii "+OK") else .status .positive {})) := by
  have hcleared := hc.cleared_of_link (by rw [hl]; rfl)
  have hfresh : (expecting c expects).Fresh
      { expectsBody := expects, inBody := c.receiver.state.inBody } :=
    ⟨hl, congrArg (Receiver.mk _) hcleared.fragment, hcleared.queue, hcleared.goAheadPending⟩
  have hfed := (Session.Fed.start (E := clientEndpoint config) hfresh).arrive probe.flatten
  -- the third of the units
  let third : Response := if expects then .line (Bytes.ascii "+OK") else .status .positive {}
  have hunits : [.termination, .status .positive {}, third]
      = [] ++ ([.termination, .status .positive {}] ++ third :: []) := rfl
  have hreceive := hfed.1.receive_receives (lines_probe hfit expects c.receiver.state.inBody) rfl
    hunits (Session.arrive_returned _ _)
  rw [← Connection.run_receives] at hreceive
  exact hreceive

theorem armsNothing_of_shut (h : c'.Shut) : ArmsNothing config c c' :=
  ⟨false, .inl rfl, receivesAs_of_shut h false⟩

theorem armsNothing_expecting {expects : Bool}
    (h : expects = false ∨ expects = c.receiver.state.expectsBody) :
    ArmsNothing config c (expecting c expects) :=
  ⟨expects, h, fun _ => rfl⟩

namespace Fails

variable {b : Except Error SendOutcome × Connection Response.Reading Response Unit}

/-- The connection is closed, unless there was no stream yet. -/
theorem shut (h : Fails c command b) (hstream : c.lifecycle ≠ .unconnected) : b.2.Shut := by
  cases h with
  | breaks _ hshut => exact hshut
  | unconnected hl => exact absurd (congrArg Link.lifecycle hl) hstream
  | closed hshut => exact shut_expecting hshut _

/-- No body is expected, or what was expected before, just if the grammar has been reset or the
command has put nothing else in place. -/
theorem expectsBody_iff (h : Fails c command b) :
    (b.2.receiver.state.expectsBody = false
        ∨ b.2.receiver.state.expectsBody = c.receiver.state.expectsBody)
      ↔ c.isOpen ∨ command.expectsMultiline = false ∨ c.receiver.state.expectsBody = true := by
  have hexpecting (hclosed : c.isOpen = false) :
      (command.expectsMultiline = false
          ∨ command.expectsMultiline = c.receiver.state.expectsBody)
        ↔ c.isOpen ∨ command.expectsMultiline = false
          ∨ c.receiver.state.expectsBody = true := by
    rw [hclosed]
    generalize command.expectsMultiline = multiline
    generalize c.receiver.state.expectsBody = expects
    revert multiline expects
    decide
  cases h with
  | breaks hopen _ hstate => exact iff_of_true (.inl (by rw [hstate])) (.inl hopen)
  | unconnected hl => exact hexpecting (by rw [Connection.isOpen, hl]; rfl)
  | closed hshut => exact hexpecting (by rw [Connection.isOpen, hshut.link]; rfl)

theorem armsNothing (h : Fails c command b) (harms : ¬Arms c command) :
    ArmsNothing config c b.2 := by
  cases h with
  | breaks _ hshut => exact armsNothing_of_shut hshut
  | unconnected hl =>
    -- the command brings no body, or one was expected before
    refine armsNothing_expecting ?_
    rw [Arms, Connection.lifecycle, hl] at harms
    cases hmultiline : command.expectsMultiline <;> simp_all [Link.lifecycle]
  | closed hshut => exact armsNothing_of_shut (shut_expecting hshut _)

end Fails

/-- An expectation that a command has left is noticed. -/
theorem not_armsNothing_of_arms (hc : c.Sound) (harms : Arms c command)
    (hfit : 5 ≤ config.limits.maxLineLength) :
    ¬ArmsNothing config c (expecting c command.expectsMultiline) := by
  obtain ⟨hunconnected, hmultiline, hnone⟩ := harms
  rintro ⟨expects, hexpects, hsame⟩
  rw [hnone, or_self] at hexpects
  have hl := Link.eq_unconnected hunconnected
  have hline := receive_probing hc hl hfit true
  have hstatus := receive_probing hc hl hfit false
  have hboth := hsame probing
  rw [hmultiline, hexpects, hline] at hboth
  cases hboth.trans hstatus

/-! ## Any row of operations -/

/-- What is left of a command that a client could not send, after any operations on its connection.
Unless there was no stream yet, the connection is closed, and every later call says so. If there was
none, the error says so, and nothing changes but the expectation. No body is expected, or what was
expected before, just if there was a stream, or the command brings no body, or one was expected
anyway. An expectation that the command has left is noticed later just if a stream can still be
attached, as long as lines may be as long as a status. -/
theorem armsNothing_iff (config : Config) (id : String)
    (ops : List (Operation Response.Reading Unit Command)) {command : Command} {e : Error}
    {c' : Connection Response.Reading Response Unit}
    (h : sendCommand config ((clientConnection config id).run (clientEndpoint config) ops) command
      = (.error e, c')) :
    let c := (clientConnection config id).run (clientEndpoint config) ops
    (c.lifecycle ≠ .unconnected → c'.Over (clientEndpoint config))
      ∧ (c.lifecycle = .unconnected →
        e = .notConnected ∧ c' = expecting c command.expectsMultiline)
      ∧ ((c'.receiver.state.expectsBody = false
          ∨ c'.receiver.state.expectsBody = c.receiver.state.expectsBody)
        ↔ c.isOpen ∨ command.expectsMultiline = false ∨ c.receiver.state.expectsBody = true)
      ∧ (¬Arms c command → ArmsNothing config c c')
      ∧ (5 ≤ config.limits.maxLineLength → (ArmsNothing config c c' ↔ ¬Arms c command)) := by
  intro c
  have hsound : c.Sound := Connection.sound_run _ (.new _ _ _ _) ops
  have hpending : c.pending = [] :=
    Connection.pending_run rfl (fun _ _ => rfl) (.new _ _ _ _) rfl ops
  have hfails := fails_of_error hsound hpending h
  have hrefused (hunconnected : c.lifecycle = .unconnected) :
      e = .notConnected ∧ c' = expecting c command.expectsMultiline := by
    rw [sendCommand_of_link (by rw [Link.eq_unconnected hunconnected]; rfl), if_pos hunconnected]
      at h
    obtain ⟨he, rfl⟩ := Prod.mk.inj h
    exact ⟨(Except.error.inj he).symm, rfl⟩
  refine ⟨fun hstream => (hfails.shut hstream).over _, hrefused, hfails.expectsBody_iff,
    hfails.armsNothing, fun hfit => ⟨fun hnothing harms => ?_, hfails.armsNothing⟩⟩
  rw [(hrefused harms.1).2] at hnothing
  exact not_armsNothing_of_arms hsound harms hfit hnothing

/-- A command that cannot be written now arms nothing. -/
theorem armsNothing_iff_unwritable :
    let stream : Stream := { writeFailures := [.nothingYet], staysOpen := true }
    let ops : List (Operation Response.Reading Unit Command) := [.attach stream none]
    let c := (clientConnection {} "1").run (clientEndpoint {}) ops
    let retrieve : Command := { verb := Bytes.ascii "RETR", args := [Bytes.ascii "1"] }
    let (result, c') := sendCommand {} c retrieve
    result = .error .timeout ∧ retrieve.expectsMultiline = true ∧ ArmsNothing {} c c' := by
  intro stream ops c retrieve
  have herror : sendCommand {} c retrieve = (.error .timeout, (sendCommand {} c retrieve).2) := by
    rfl
  have hopen : c.lifecycle ≠ .unconnected := by decide +kernel
  obtain ⟨-, -, -, hnothing, -⟩ := armsNothing_iff {} "1" ops herror
  exact ⟨rfl, by decide +kernel, hnothing fun harms => hopen harms.1⟩

/-- A client tries to retrieve a mail before it has a stream. That fails, and a body is expected all
the same: the greeting of the server then begins it, and the line after the greeting is read as a
line of that body. Without the command that line would have been refused. -/
theorem arms_before_stream :
    let E := clientEndpoint {}
    let c := clientConnection {} "1"
    let retrieve : Command := { verb := Bytes.ascii "RETR", args := [Bytes.ascii "1"] }
    let c' := (sendCommand {} c retrieve).2
    let stream : Stream := { incoming := [.data (Bytes.ascii "+OK ready\r\nhello\r\n")] }
    let ops : List (Operation Response.Reading Unit Command) := [.attach stream none, .receive]
    (sendCommand {} c retrieve).1 = .error .notConnected
      ∧ c.receiver.state.expectsBody = false ∧ c'.receiver.state.expectsBody = true
      ∧ ((c'.run E ops).receive E).1 = .ok (some (.line (Bytes.ascii "hello")))
      ∧ ((c.run E ops).receive E).1
        = .error (.malformed { fault := .invalidIndicator, raw := Bytes.ascii "hello\r\n" }) := by
  decide +kernel

end Pop3

end MailProtocol
