import MailProtocol.Imap.Endpoint
import MailProtocol.Proofs.Connection.Lifecycle

/-!
# What the errors of receiving say

Whoever receives can tell from the error whether the connection has survived (`Connection.Tells`).
After a refusal of malformed input it goes on as before, and so it does when there is nothing to
read in time. The end of the stream, and a failure of it, end the connection, and every later call
says so. A timeout has a second meaning, though: if it is the request for a literal that cannot be
written in time, then the connection is closed, as after any other failure to write.
-/

namespace MailProtocol

variable {γ υ δ ω : Type}

/-- The operation is a call that can fail. -/
def Operation.isCall : Operation γ δ ω → Bool
  | attach _ _ | upgrade _ | send _ | sendContinuation | receive => true
  | setIdle _ | setWriter _ | mapState _ | close | meanwhile _ => false

namespace Connection

variable (E : Endpoint γ υ δ ω) {c c' : Connection γ υ δ} {t t' : Transport}

/-! ## After the end -/

namespace Shut

/-- Every call of a closed connection is refused. -/
theorem operate_call (h : c.Shut) {op : Operation γ δ ω} (hop : op.isCall) :
    c.operate E op = (.error .closed, c) := by
  have hopen : c.openError? = some .closed := by rw [openError?, h.link]
  cases op with
  | attach stream peer =>
    have hattach : c.attachError? = some .closed := by rw [attachError?, h.link]
    unfold Connection.operate attach
    rw [hattach]
  | upgrade handshake => rw [operate, upgrade, h.link]
  | send unit =>
    rw [operate, send, hopen]
    rfl
  | sendContinuation =>
    rw [operate, sendContinuation, hopen]
    rfl
  | receive =>
    rw [operate, receive, h.queue, hopen]
    rfl
  | setIdle | setWriter | mapState | close | meanwhile => cases hop

/-- The settings of a closed connection can be changed, but it stays closed and writes nothing. -/
theorem operate (h : c.Shut) (op : Operation γ δ ω) :
    (c.operate E op).2.Shut ∧ (c.operate E op).2.output = c.output := by
  cases hop : op.isCall with
  | true =>
    rw [h.operate_call E hop]
    exact ⟨h, rfl⟩
  | false =>
    have hsettings : ∀ c' : Connection γ υ δ, c'.link = c.link → c.SameStanding c' → c'.Shut :=
      fun c' hlink hsame => ⟨hsame.cleared h.toCleared, hlink.trans h.link⟩
    cases op with
    | setIdle | setWriter | mapState => exact ⟨hsettings _ rfl ⟨rfl, rfl, rfl, rfl⟩, rfl⟩
    | close => exact shut_close E c
    | meanwhile f =>
      rw [Connection.operate, mapStream, h.link]
      exact ⟨h, rfl⟩
    | attach | upgrade | send | sendContinuation | receive => cases hop

theorem run (h : c.Shut) (ops : List (Operation γ δ ω)) :
    (c.run E ops).Shut ∧ (c.run E ops).output = c.output := by
  induction ops generalizing c with
  | nil => exact ⟨h, rfl⟩
  | cons op ops ih =>
    obtain ⟨hshut, houtput⟩ := h.operate E op
    obtain ⟨hshut', houtput'⟩ := ih hshut
    exact ⟨hshut', houtput'.trans houtput⟩

end Shut

/-- The connection is closed, and every later call says so and changes nothing. -/
structure Over (c : Connection γ υ δ) : Prop where
  lifecycle : c.lifecycle = .closed
  later : ∀ (ops : List (Operation γ δ ω)) (op : Operation γ δ ω), op.isCall →
    (c.run E ops).operate E op = (.error .closed, c.run E ops)

theorem Shut.over (h : c.Shut) : c.Over E where
  lifecycle := by
    rw [Connection.lifecycle, h.link]
    rfl
  later := fun ops _ hop => (h.run E ops).1.operate_call E hop

/-! ## Going on -/

/-- What is still to be handed out, if `more` comes after all that is to come on the stream: what is
in the queue, and what a bare receiver that goes on from here makes of the rest. -/
def awaited (c : Connection γ υ δ) (t : Transport) (more : List Bytes) :
    List (Except Malformed υ) :=
  c.queue ++ Reported.results
    (Reception.feed E.lawful (c.receiver.reception t) (Read.pieces t.reads ++ more))

/-- The call leaves the connection open where it stands in its life. What it hands out is the first
of what was to be handed out, and all the rest still is. -/
def Continues (c : Connection γ υ δ) (t : Transport) : Prop :=
  let (result, c') := c.receive E
  c'.lifecycle = c.lifecycle ∧ ∃ t', c'.link = .connected t'
    ∧ ∀ more, c.awaited E t more = (returned? result).toList ++ c'.awaited E t' more

variable {E}

namespace Moves

variable {given : List (Except Malformed υ)} {rs : List Read} {os : List (Reported υ)}

theorem lifecycle (hl : c.link = .connected t) (h : Moves E c t given rs os c' t') :
    c'.lifecycle = c.lifecycle := by
  rw [Connection.lifecycle, Connection.lifecycle, hl, h.link, Link.lifecycle, Link.lifecycle,
    h.upgraded]

/-- Nothing is lost on the way. -/
theorem awaited (h : Moves E c t given rs os c' t') (more : List Bytes) :
    c.awaited E t more = given ++ c'.awaited E t' more := by
  -- a bare receiver comes to the same place with the pieces that have been read
  have hfeed := h.runs.reaches E.lawful (Read.pieces t'.reads ++ more)
  have hpieces : Read.pieces t.reads = Read.pieces rs ++ Read.pieces t'.reads := by
    rw [h.reads, Read.pieces_append h.lasting]
  rw [Connection.awaited, Connection.awaited, hpieces, List.append_assoc, hfeed,
    Reported.results_append, ← List.append_assoc, h.queue, List.append_assoc]

theorem continues (hl : c.link = .connected t) (h : Moves E c t given rs os c' t')
    {result : Except Error (Option υ)} (hreceive : c.receive E = (result, c'))
    (hgiven : (returned? result).toList = given) : c.Continues E t := by
  rw [Continues, hreceive]
  exact ⟨h.lifecycle hl, t', h.link, hgiven ▸ h.awaited⟩

end Moves

variable (E)

/-! ## The errors -/

/-- What an error of the next call of receiving says about the connection. -/
structure Tells (c : Connection γ υ δ) (t : Transport) : Prop where
  malformed : ∀ report, (c.receive E).1 = .error (.malformed report) → c.Continues E t
  /-- If it is not for something to read that the connection has waited in vain, then it could not
  ask for a literal. -/
  timeout : (c.receive E).1 = .error .timeout → c.Continues E t
    ∨ Broken E c t (c.receive E) ∧ ¬t.Writable ∧ (c.receive E).2.Over E
  ended : ∀ e, (c.receive E).1 = .error e → e.isEnd → (c.receive E).2.Over E
  others : ∀ e, (c.receive E).1 = .error e → (∃ report, e = .malformed report) ∨ e = .timeout
    ∨ e.isEnd

variable {E}

theorem Received.tells (hl : c.link = .connected t) (h : Received E c t (c.receive E)) :
    c.Tells E t := by
  generalize hreceive : c.receive E = b at h
  cases h with
  | @handed result rs os c' t' hmoves =>
    have hgoes := hmoves.continues hl hreceive (by rw [returned?_handed]; rfl)
    refine ⟨fun _ _ => hgoes, fun _ => .inl hgoes, ?_, ?_⟩ <;> rw [hreceive]
    · rintro e he hend
      cases result <;> cases he
      cases hend
    · rintro e he
      cases result <;> cases he
      exact .inl ⟨_, rfl⟩
  | blocked hmoves =>
    have hgoes := hmoves.continues hl hreceive (by cases c.idle <;> rfl)
    refine ⟨fun _ _ => hgoes, fun _ => .inl hgoes, ?_, ?_⟩ <;> rw [hreceive]
    · rintro e he hend
      cases hidle : c.idle <;> rw [hidle] at he <;> cases he
      cases hend
    · rintro e he
      cases hidle : c.idle <;> rw [hidle] at he <;> cases he
      exact .inr (.inl rfl)
  | @ended e _ _ _ c' _ _ _ _ _ _ he hshut =>
    refine ⟨?_, ?_, ?_, ?_⟩ <;> rw [hreceive]
    · intro report he'
      obtain rfl := Except.error.inj he'
      cases he
    · intro he'
      obtain rfl := Except.error.inj he'
      cases he
    · exact fun _ _ _ => hshut.over E
    · intro e' he'
      obtain rfl := Except.error.inj he'
      exact .inr (.inr he)

theorem Broken.tells (h : Broken E c t (c.receive E)) : c.Tells E t := by
  have hbroken := h
  generalize hreceive : c.receive E = b at h hbroken
  obtain ⟨-, -, -, -, hbreaks⟩ := h
  have hover := hbreaks.shut.over E
  refine ⟨?_, ?_, ?_, ?_⟩ <;> rw [hreceive]
  · intro report he
    rw [StreamError.ofWrite] at he
    split at he <;> cases he
  · exact fun _ => .inr ⟨hbroken, hbroken.not_writable, hover⟩
  · exact fun _ _ _ => hover
  · intro e' he'
    obtain rfl := Except.error.inj he'
    rw [StreamError.ofWrite]
    split
    · exact .inr (.inl rfl)
    · exact .inr (.inr rfl)

/-- The errors of receiving tell whether an open connection has survived, except that a timeout may
also mean that a literal could not be asked for in time, and then the connection is closed. -/
theorem tells_of_connected (E : Endpoint γ υ δ ω) (hl : c.link = .connected t) : c.Tells E t := by
  rcases receive_cases (E := E) hl with h | h
  · exact h.tells hl
  · exact h.tells

/-- A server waits in vain for the rest of a command, and goes on waiting. -/
theorem tells_of_connected_server :
    let stream : Stream := { incoming := [.data (Bytes.ascii "a NO")], staysOpen := true }
    let c := ((Imap.serverConnection {} "1").attach stream none).2
    let t := Transport.ofStream stream c.chunkSize
    c.link = .connected t ∧ (c.receive (Imap.serverEndpoint {})).1 = .error .timeout
      ∧ c.Tells (Imap.serverEndpoint {}) t :=
  ⟨rfl, by decide +kernel, tells_of_connected _ rfl⟩

end Connection

namespace Imap

/-- A server cannot write the request for a literal right now. It reports a timeout, as if it had
waited in vain for something to read, but the connection is closed. -/
theorem closed_of_timeout :
    let stream : Stream := {
      incoming := [.data (Bytes.ascii "a LOGIN \x7b3\x7d\r\n")]
      writeFailures := [.nothingYet] }
    let E := serverEndpoint {}
    let c := (serverConnection {} "1").run E [.attach stream none]
    c.lifecycle = .connected ∧ (c.receive E).1 = .error .timeout
      ∧ (c.receive E).2.lifecycle = .closed
      ∧ ((c.receive E).2.receive E).1 = .error .closed := by
  decide +kernel

end Imap

end MailProtocol
