import MailProtocol.Connection.Send

/-!
# Receiving

Units are handed out in the order in which they came. One read of the stream can complete several:
whatever has been read is turned into units at once, and these wait in a queue, so later calls are
answered without another read.

A peer that waits before it sends a literal is asked for it when everything before the literal has
been handed out (`Connection.goAheadPending`).

With nothing to read, an idle connection says so, and another one reports a timeout; both stay open.
Every other failure to read, and the end of the stream, closes the connection.

`Connection.poll` is one step of waiting for a unit. The steps end because what is still to come,
and what is there already, gets less (`work_of_poll`).
-/

namespace MailProtocol.Connection

variable {γ υ δ ω : Type} (E : Endpoint γ υ δ ω)

/-- Ask the peer for the literal that it waits to send. -/
def sendGoAhead (c : Connection γ υ δ) : Except Error Unit × Connection γ υ δ :=
  match E.grammar.continuationRequest with
  | none => (.ok (), c)
  | some request => c.transmit E request

/-- Read once from the stream; `false` if an idle connection finds nothing there. -/
def fill (c : Connection γ υ δ) : Except Error Bool × Connection γ υ δ :=
  match c.link with
  | .unconnected | .closed => (.error .notConnected, c)
  | .connected t =>
    match t.fill with
    | (.ok n, t) =>
      let c := { c with link := .connected t }
      if n = 0 then (.error .closed, (c.info "EOF from peer").close E) else (.ok true, c)
    | (.error e, t) =>
      let c := { c with link := .connected t }
      if e.kind = .interrupted then (.ok true, c)
      else if e.isWouldBlock then (if c.idle then .ok false else .error .timeout, c)
      else (.error (.stream e), (c.warn ("Read failed: " ++ e.text)).close E)

/-- The end of waiting: a unit or a refusal, nothing yet, or why there will be none. -/
abbrev Polled (γ υ δ : Type) := Except Error (Option (Except Malformed υ)) × Connection γ υ δ

/-- One step of waiting for a unit. -/
def poll (c : Connection γ υ δ) : Connection γ υ δ ⊕ Polled γ υ δ :=
  match c.link with
  | .unconnected | .closed => .inr (.error .notConnected, c)
  | .connected t =>
    match c.receiver.receive E.grammar t with
    | (result, receiver, t) =>
      let c := { c with receiver, link := .connected t }
      match result with
      | .ok (.complete unit) => .inr (.ok (some (.ok unit)), c)
      | .error report => .inr (.ok (some (.error report)), c.warnMalformed report)
      | .ok (.continuing _ false) => .inl c
      | .ok (.continuing _ true) =>
        match c.sendGoAhead E with
        | (.ok (), c) => .inl c
        | (.error e, c) => .inr (.error e, c)
      | .ok (.needMore _) =>
        match c.fill E with
        | (.ok true, c) => .inl c
        | (.ok false, c) => .inr (.ok none, c)
        | (.error e, c) => .inr (.error e, c)

/-! ## Waiting ends -/

/-- What is still to come and what is there, weighed so that reading makes it less. -/
def work (c : Connection γ υ δ) : Nat :=
  match c.link with
  | .unconnected | .closed => 0
  | .connected t => 3 * t.remaining + 2 * t.buffer.length + c.receiver.fragment.weight

variable {E}

theorem work_of_fill {c c' : Connection γ υ δ} (h : c.fill E = (.ok true, c')) :
    c'.work < c.work := by
  unfold fill at h
  split at h
  · simp at h
  · simp at h
  · next t hl =>
    split at h
    · next hf =>
      have := Transport.remaining_of_fill hf
      simp only at h
      split at h
      · simp at h
      · obtain rfl := (Prod.mk.inj h).2
        simp only [work, hl]
        omega
    · next e _ hf =>
      simp only at h
      split at h
      · next he =>
        have ⟨hlt, hbuffer⟩ := Transport.remaining_of_fill_interrupted hf he
        obtain rfl := (Prod.mk.inj h).2
        simp only [work, hl, hbuffer]
        omega
      · split at h
        · split at h <;> simp at h
        · simp at h

theorem work_of_transmit {c c' : Connection γ υ δ} {data : Bytes}
    (h : c.transmit E data = (.ok (), c')) : c'.work = c.work := by
  unfold transmit at h
  split at h
  · simp at h
  · simp at h
  · next t hl =>
    split at h
    · simp [writeFailed] at h
    · next t1 hw =>
      simp only at h
      split at h
      · simp [writeFailed] at h
      · next t2 hf =>
        obtain rfl := (Prod.mk.inj h).2
        have h1 := t.remaining_writeAll data
        have h2 := t1.remaining_flush
        rw [hw] at h1
        rw [hf] at h2
        simp only at h1 h2
        simp [work, hl, h1, h2]

theorem work_of_sendGoAhead {c c' : Connection γ υ δ} (h : c.sendGoAhead E = (.ok (), c')) :
    c'.work = c.work := by
  unfold sendGoAhead at h
  split at h
  · obtain rfl := (Prod.mk.inj h).2
    rfl
  · exact work_of_transmit h

/-- A step that leads on leaves less to wait for. -/
theorem work_of_poll {c c' : Connection γ υ δ} (h : c.poll E = .inl c') : c'.work < c.work := by
  unfold poll at h
  split at h
  · simp at h
  · simp at h
  · next t hl =>
    have hs := Receiver.size_receive_le E.grammar c.receiver t
    split at h
    next result receiver t' hr =>
    rw [hr] at hs
    simp only at h hs
    split at h
    · simp at h
    · simp at h
    · obtain rfl := Sum.inl.inj h
      simp only [work, hl]
      omega
    · split at h
      · next hgo =>
        obtain rfl := Sum.inl.inj h
        have := work_of_sendGoAhead hgo
        simp only [work, hl] at this ⊢
        omega
      · simp at h
    · split at h
      · next hf =>
        obtain rfl := Sum.inl.inj h
        have := work_of_fill hf
        simp only [work, hl] at this ⊢
        omega
      · simp at h
      · simp at h

/-! ## Handing out -/

variable (E)

/-- Wait until there is a unit or a refusal. -/
def wait (c : Connection γ υ δ) : Polled γ υ δ := iterate (poll E) work work_of_poll c

/-- Put what the transport has buffered into the queue. -/
def drain (c : Connection γ υ δ) : Connection γ υ δ :=
  match c.link with
  | .unconnected | .closed => c
  | .connected t =>
    let (results, goAheadPending, receiver, t) := c.receiver.drain E.lawful t
    let c := results.foldl (fun c result => match result with
      | .ok _ => c
      | .error report => c.warnMalformed report) c
    { c with link := .connected t, receiver, goAheadPending, queue := c.queue ++ results }

/-- Take the first of the queue. -/
def takeQueued (c : Connection γ υ δ) : Except Error (Option υ) × Connection γ υ δ :=
  match c.queue with
  | [] => (.ok none, c)
  | result :: queue =>
    let c := { c with queue }
    match result with
    | .ok unit => (.ok (some unit), c)
    | .error report => (.error (.malformed report), c)

/-- Ask the peer for the literal that it has waited to send since the queue was filled. -/
def settleGoAhead (c : Connection γ υ δ) : Except Error Unit × Connection γ υ δ :=
  if c.goAheadPending then { c with goAheadPending := false }.sendGoAhead E else (.ok (), c)

/-- Read on until there is a unit or a refusal, and put it and all that is there after it into the
queue. -/
def fetch (c : Connection γ υ δ) : Except Error (Option υ) × Connection γ υ δ :=
  match c.wait E with
  | (.error e, c) => (.error e, c)
  | (.ok none, c) => (.ok none, c)
  | (.ok (some result), c) => ({ c with queue := c.queue ++ [result] }.drain E).takeQueued

/-- The next unit; none if an idle connection finds nothing to read. -/
def receive (c : Connection γ υ δ) : Except Error (Option υ) × Connection γ υ δ :=
  if !c.queue.isEmpty then c.takeQueued
  else match c.openError? with
    | some e => (.error e, c)
    | none =>
      match c.settleGoAhead E with
      | (.error e, c) => (.error e, c)
      | (.ok (), c) => c.fetch E

end MailProtocol.Connection
