import MailProtocol.Proofs.Connection.Edits
import MailProtocol.Proofs.Reception.Slots

/-!
# A connection with slots

The link of a connection says both where the connection stands in its life and whether it has a
transport, so the two cannot contradict each other, and a fragment cannot say that the receiver
waits for a literal which was never announced. A connection may as well keep all this in slots that
are set one by one (`SlotConnection`): where it stands in its life, its transport, and what its
receiver knows. Then every operation has to look after all of them, also where it closes the
connection halfway, and may find that there is no transport although the connection should have one.
-/

namespace MailProtocol

variable {γ υ δ ω : Type}

/-! ## What the standing in life allows -/

namespace Lifecycle

/-- Why a stream cannot be attached. -/
def attachError? : Lifecycle → Option Error
  | unconnected => none
  | connected | upgraded => some .alreadyConnected
  | closed => some .closed

/-- Why nothing can be sent or received. -/
def openError? : Lifecycle → Option Error
  | connected | upgraded => none
  | unconnected => some .notConnected
  | closed => some .closed

/-- Why the stream cannot be replaced. -/
def upgradeError? : Lifecycle → Option Error
  | connected => none
  | upgraded => some .alreadyUpgraded
  | unconnected => some .notConnected
  | closed => some .closed

end Lifecycle

/-- A connection that keeps slots. -/
structure SlotConnection (γ υ δ : Type) where
  label : LogLabel
  /-- How many bytes to ask a stream for at a time. -/
  chunkSize : Nat
  /-- Where the connection stands in its life. -/
  lifecycle : Lifecycle := .unconnected
  transport : Option Transport := none
  receiver : SlotReceiver γ
  /-- How units are written. -/
  writer : δ
  /-- Units and refusals that have been read and not yet been handed out. -/
  queue : List (Except Malformed υ) := []
  /-- Segments that wait until the peer asks for them. -/
  pending : List Bytes := []
  /-- The peer waits to be asked for a literal that came after what is in the queue. -/
  goAheadPending : Bool := false
  /-- With nothing to read, say so instead of failing. -/
  idle : Bool := false
  /-- The lines of the log, in order. -/
  log : List LogLine := []
  /-- What has been written, write by write. -/
  output : List Bytes := []

namespace SlotConnection

/-- A connection before it has a stream. -/
def new (label : LogLabel) (chunkSize : Nat) (state : γ) (writer : δ) : SlotConnection γ υ δ :=
  { label, chunkSize, receiver := { state }, writer }

/-- Add a line to the log, after the label. -/
def note (s : SlotConnection γ υ δ) (level : LogLevel) (text : String) : SlotConnection γ υ δ :=
  { s with log := s.log ++ [⟨level, s.label.render ++ " " ++ text⟩] }

/-- Add an ordinary line. -/
def info (s : SlotConnection γ υ δ) (text : String) : SlotConnection γ υ δ := s.note .info text

/-- Add a warning. -/
def warn (s : SlotConnection γ υ δ) (text : String) : SlotConnection γ υ δ := s.note .warn text

variable (E : Endpoint γ υ δ ω)

/-! ## Life -/

/-- Attach a stream, whose peer may have a name. -/
def attach (s : SlotConnection γ υ δ) (stream : Stream) (peer : Option String) :
    Except Error Unit × SlotConnection γ υ δ :=
  match s.lifecycle.attachError? with
  | some e => (.error e, s)
  | none =>
    let s := match peer with
      | some peer => { s with label := s.label.setPeer peer }
      | none => s
    let s := { s with transport := some (.ofStream stream s.chunkSize) }
    let s := { s with lifecycle := .connected }
    (.ok (), s.info "Connected")

/-- Give up the stream, and all that was not handed out or sent. -/
def close (s : SlotConnection γ υ δ) : SlotConnection γ υ δ :=
  let s := match s.transport with
    | some _ => { s with transport := none }.info "Connection closed"
    | none => s
  let s := { s with lifecycle := .closed }
  let s := { s with receiver := s.receiver.reset E.grammar }
  { s with queue := [], pending := [], goAheadPending := false }

/-- Replace the stream by what `handshake` makes of it. If that fails, the connection is closed. -/
def upgrade (s : SlotConnection γ υ δ) (handshake : Stream → Except Error Stream) :
    Except Error Unit × SlotConnection γ υ δ :=
  match s.lifecycle.upgradeError? with
  | some e => (.error e, s)
  | none =>
    match s.transport with
    | none => (.error .notConnected, s)
    | some t =>
      match t.upgrade handshake with
      | (.error e, t) =>
        let s := { s with transport := some t }.warn ("Stream upgrade failed: " ++ e.message)
        (.error e, s.close E)
      | (.ok (), t) =>
        let s := { s with transport := some t }
        let s := { s with lifecycle := .upgraded }
        let s := { s with label := s.label.setTls true }
        (.ok (), s.info "Stream upgraded")

/-! ## Sending -/

/-- Write to the stream, and flush it. A failure closes the connection. -/
def transmit (s : SlotConnection γ υ δ) (data : Bytes) :
    Except Error Unit × SlotConnection γ υ δ :=
  let failed (s : SlotConnection γ υ δ) (e : StreamError) :=
    (.error (if e.isWouldBlock then .timeout else .stream e),
      (s.warn ("Write failed: " ++ e.text)).close E)
  match s.transport with
  | none => (.error .notConnected, s)
  | some t =>
    match t.writeAll data with
    | (.error e, t) => failed { s with transport := some t } e
    | (.ok (), t) =>
      let output := if data.isEmpty then s.output else s.output ++ [data]
      match t.flush with
      | (.error e, t) => failed { s with transport := some t, output } e
      | (.ok (), t) => (.ok (), { s with transport := some t, output })

/-- How far the last unit has been sent. -/
def sendOutcome (s : SlotConnection γ υ δ) : SendOutcome :=
  if s.pending.isEmpty then .sent else .awaiting

/-- Send a unit, as far as the peer need not ask for it. The segments wait when the first has been
written. -/
def send (s : SlotConnection γ υ δ) (unit : ω) : Except Error SendOutcome × SlotConnection γ υ δ :=
  match s.lifecycle.openError? with
  | some e => (.error e, s)
  | none =>
    if !s.pending.isEmpty then (.error .continuationPending, s)
    else
      let segments := E.write s.writer unit
      match s.transmit E segments.first with
      | (.error e, s) => (.error e, s)
      | (.ok (), s) =>
        let s := { s with pending := segments.rest }
        (.ok s.sendOutcome, s)

/-- Send the next segment of the last unit. It waits no longer when it is written. -/
def sendContinuation (s : SlotConnection γ υ δ) :
    Except Error SendOutcome × SlotConnection γ υ δ :=
  match s.lifecycle.openError? with
  | some e => (.error e, s)
  | none =>
    match s.pending with
    | [] => (.error .noContinuation, s)
    | segment :: pending =>
      match { s with pending }.transmit E segment with
      | (.error e, s) => (.error e, s)
      | (.ok (), s) => (.ok s.sendOutcome, s)

/-! ## Receiving -/

/-- Ask the peer for the literal that it waits to send. -/
def sendGoAhead (s : SlotConnection γ υ δ) : Except Error Unit × SlotConnection γ υ δ :=
  match E.grammar.continuationRequest with
  | none => (.ok (), s)
  | some request => s.transmit E request

/-- Read once from the stream; `false` if an idle connection finds nothing there. -/
def fill (s : SlotConnection γ υ δ) : Except Error Bool × SlotConnection γ υ δ :=
  match s.transport with
  | none => (.error .notConnected, s)
  | some t =>
    match t.fill with
    | (.ok n, t) =>
      let s := { s with transport := some t }
      if n = 0 then (.error .closed, (s.info "EOF from peer").close E) else (.ok true, s)
    | (.error e, t) =>
      let s := { s with transport := some t }
      if e.kind = .interrupted then (.ok true, s)
      else if e.isWouldBlock then (if s.idle then .ok false else .error .timeout, s)
      else (.error (.stream e), (s.warn ("Read failed: " ++ e.text)).close E)

/-- Put a unit into the queue, or a refusal, of which the log is told. -/
def enqueue (s : SlotConnection γ υ δ) (result : Except Malformed υ) : SlotConnection γ υ δ :=
  let s := match result with
    | .ok _ => s
    | .error report => s.warn report.message
  { s with queue := s.queue ++ [result] }

/-- The end of waiting: there is something in the queue or nothing yet, or why there will be
nothing. -/
abbrev Polled (γ υ δ : Type) := Except Error Bool × SlotConnection γ υ δ

/-- One round of waiting for a unit. -/
def poll (s : SlotConnection γ υ δ) : SlotConnection γ υ δ ⊕ Polled γ υ δ :=
  match s.transport with
  | none => .inr (.error .notConnected, s)
  | some t =>
    match s.receiver.receive E.grammar t with
    | (result, receiver, t) =>
      let s := { s with receiver, transport := some t }
      match result with
      | .ok (.complete unit) => .inr (.ok true, s.enqueue (.ok unit))
      | .error report => .inr (.ok true, s.enqueue (.error report))
      | .ok (.continuing _ false) => .inl s
      | .ok (.continuing _ true) =>
        match s.sendGoAhead E with
        | (.ok (), s) => .inl s
        | (.error e, s) => .inr (.error e, s)
      | .ok (.needMore _) =>
        match s.fill E with
        | (.ok true, s) => .inl s
        | (.ok false, s) => .inr (.ok false, s)
        | (.error e, s) => .inr (.error e, s)

/-- What is still to come and what is there, weighed so that reading makes it less. -/
def work (s : SlotConnection γ υ δ) : Nat :=
  match s.transport with
  | none => 0
  | some t => 3 * t.remaining + (s.receiver.loop t).size

variable {E}

theorem work_of_fill {s s' : SlotConnection γ υ δ} (h : s.fill E = (.ok true, s')) :
    s'.work < s.work := by
  unfold fill at h
  split at h
  · cases h
  · next t ht =>
    split at h
    · next n t' hfill =>
      obtain ⟨hremaining, hbuffer⟩ := Transport.remaining_of_fill hfill
      dsimp only at h
      split at h
      · cases h
      · obtain rfl := (Prod.mk.inj h).2
        simp only [work, ht, SlotReceiver.loop, ReceiveLoop.size]
        omega
    · next e t' hfill =>
      dsimp only at h
      split at h
      · next hinterrupted =>
        obtain ⟨hremaining, hbuffer⟩ := Transport.remaining_of_fill_interrupted hfill hinterrupted
        obtain rfl := (Prod.mk.inj h).2
        simp only [work, ht, SlotReceiver.loop, ReceiveLoop.size, hbuffer]
        omega
      · split at h
        · split at h <;> cases h
        · cases h

theorem work_of_transmit {s s' : SlotConnection γ υ δ} {data : Bytes}
    (h : s.transmit E data = (.ok (), s')) : s'.work = s.work := by
  unfold transmit at h
  dsimp only at h
  split at h
  · cases h
  · next t ht =>
    split at h
    · cases h
    · next t₁ hwrite =>
      split at h
      · cases h
      · next t₂ hflush =>
        obtain rfl := (Prod.mk.inj h).2
        obtain ⟨hremaining₁, hbuffer₁⟩ := t.remaining_writeAll data
        obtain ⟨hremaining₂, hbuffer₂⟩ := t₁.remaining_flush
        rw [hwrite] at hremaining₁ hbuffer₁
        rw [hflush] at hremaining₂ hbuffer₂
        have hremaining : t₂.remaining = t.remaining := hremaining₂.trans hremaining₁
        have hbuffer : t₂.buffer = t.buffer := hbuffer₂.trans hbuffer₁
        have hloop : s.receiver.loop t₂ = s.receiver.loop t := by
          rw [SlotReceiver.loop, SlotReceiver.loop, hbuffer]
        simp only [work, ht, hremaining, hloop]

theorem work_of_sendGoAhead {s s' : SlotConnection γ υ δ} (h : s.sendGoAhead E = (.ok (), s')) :
    s'.work = s.work := by
  unfold sendGoAhead at h
  split at h
  · obtain rfl := (Prod.mk.inj h).2
    rfl
  · exact work_of_transmit h

/-- A round that leads on leaves less to wait for. -/
theorem work_of_poll {s s' : SlotConnection γ υ δ} (h : s.poll E = .inl s') : s'.work < s.work := by
  unfold poll at h
  split at h
  · cases h
  · next t ht =>
    obtain ⟨hremaining, hshrinks⟩ := s.receiver.shrinks_receive E.grammar t
    rcases hreceive : s.receiver.receive E.grammar t with ⟨result, receiver, t'⟩
    rw [hreceive] at h hremaining hshrinks
    dsimp only at hremaining
    have hwork : s.work = 3 * t.remaining + (s.receiver.loop t).size := by rw [work, ht]
    have hwork' : work { s with receiver, transport := some t' }
      = 3 * t'.remaining + (receiver.loop t').size := rfl
    match result with
    | .ok (.complete _) | .error _ => cases h
    | .ok (.continuing missing false) =>
      obtain rfl := Sum.inl.inj h
      have hsize : (receiver.loop t').size < (s.receiver.loop t).size := hshrinks
      omega
    | .ok (.continuing missing true) =>
      have hsize : (receiver.loop t').size < (s.receiver.loop t).size := hshrinks
      dsimp only at h
      split at h
      · next hgo =>
        obtain rfl := Sum.inl.inj h
        have hsame := work_of_sendGoAhead hgo
        omega
      · cases h
    | .ok (.needMore count) =>
      have hsize : (receiver.loop t').size ≤ (s.receiver.loop t).size := hshrinks
      dsimp only at h
      split at h
      · next hfill =>
        obtain rfl := Sum.inl.inj h
        have hless := work_of_fill hfill
        omega
      · cases h
      · cases h

variable (E)

/-- Do rounds until there is a unit or a refusal. -/
def wait (s : SlotConnection γ υ δ) : Polled γ υ δ := iterate (poll E) work work_of_poll s

/-- One round of putting what the transport has buffered into the queue. -/
def drainStep (s : SlotConnection γ υ δ) : SlotConnection γ υ δ ⊕ SlotConnection γ υ δ :=
  match s.transport with
  | none => .inr s
  | some t =>
    match s.receiver.receive E.grammar t with
    | (result, receiver, t) =>
      let s := { s with receiver, transport := some t }
      match result with
      | .ok (.complete unit) => .inl (s.enqueue (.ok unit))
      | .error report => .inl (s.enqueue (.error report))
      | .ok (.continuing _ goAhead) => .inr { s with goAheadPending := goAhead }
      | .ok (.needMore _) => .inr s

/-- What is there. -/
def stock (s : SlotConnection γ υ δ) : Nat :=
  match s.transport with
  | none => 0
  | some t => (s.receiver.loop t).total

variable {E}

/-- Each unit and each refusal takes bytes away for good. -/
theorem stock_of_drainStep {s s' : SlotConnection γ υ δ} (h : s.drainStep E = .inl s') :
    s'.stock < s.stock := by
  unfold drainStep at h
  split at h
  · cases h
  · next t ht =>
    have hshrinks := (s.receiver.shrinks_receive E.grammar t).2
    rcases hreceive : s.receiver.receive E.grammar t with ⟨result, receiver, t'⟩
    rw [hreceive] at h hshrinks
    have hstock : s.stock = (s.receiver.loop t).total := by rw [stock, ht]
    match result with
    | .ok (.continuing _ _) | .ok (.needMore _) => cases h
    | .ok (.complete _) =>
      obtain rfl := Sum.inl.inj h
      rw [hstock]
      exact hshrinks E.lawful
    | .error _ =>
      obtain rfl := Sum.inl.inj h
      rw [hstock]
      exact hshrinks

variable (E)

/-- Put what the transport has buffered into the queue. -/
def drain (s : SlotConnection γ υ δ) : SlotConnection γ υ δ :=
  iterate (drainStep E) stock stock_of_drainStep s

/-- Take the first of the queue. -/
def takeQueued (s : SlotConnection γ υ δ) : Except Error (Option υ) × SlotConnection γ υ δ :=
  match s.queue with
  | [] => (.ok none, s)
  | .ok unit :: queue => (.ok (some unit), { s with queue })
  | .error report :: queue => (.error (.malformed report), { s with queue })

/-- Ask the peer for the literal that it has waited to send since the queue was filled. -/
def settleGoAhead (s : SlotConnection γ υ δ) : Except Error Unit × SlotConnection γ υ δ :=
  if s.goAheadPending then { s with goAheadPending := false }.sendGoAhead E else (.ok (), s)

/-- The next unit; none if an idle connection finds nothing to read. -/
def receive (s : SlotConnection γ υ δ) : Except Error (Option υ) × SlotConnection γ υ δ :=
  if !s.queue.isEmpty then s.takeQueued
  else match s.lifecycle.openError? with
    | some e => (.error e, s)
    | none =>
      match s.settleGoAhead E with
      | (.error e, s) => (.error e, s)
      | (.ok (), s) =>
        match s.wait E with
        | (.error e, s) => (.error e, s)
        | (.ok false, s) => (.ok none, s)
        | (.ok true, s) => (s.drain E).takeQueued

/-! ## Operations -/

/-- Whether an operation fails, and the connection after it. -/
def operate (s : SlotConnection γ υ δ) :
    Operation γ δ ω → Except Error Unit × SlotConnection γ υ δ
  | .attach stream peer => s.attach stream peer
  | .upgrade handshake => s.upgrade E handshake
  | .send unit => ((s.send E unit).1.map fun _ => (), (s.send E unit).2)
  | .sendContinuation => ((s.sendContinuation E).1.map fun _ => (), (s.sendContinuation E).2)
  | .receive => ((s.receive E).1.map fun _ => (), (s.receive E).2)
  | .setIdle idle => (.ok (), { s with idle })
  | .setWriter writer => (.ok (), { s with writer })
  | .mapState f => (.ok (), { s with receiver := { s.receiver with state := f s.receiver.state } })
  | .close => (.ok (), s.close E)
  | .meanwhile f => (.ok (), { s with transport := s.transport.map (·.mapStream f) })

/-- The connection after these operations. -/
def run (s : SlotConnection γ υ δ) (ops : List (Operation γ δ ω)) : SlotConnection γ υ δ :=
  ops.foldl (fun s op => (s.operate E op).2) s

end SlotConnection

end MailProtocol
