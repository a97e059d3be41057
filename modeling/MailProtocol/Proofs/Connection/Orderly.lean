import MailProtocol.Proofs.Connection.Slots
import MailProtocol.Proofs.Transport.Queue

/-!
# Slots that agree

From the slots that a connection sets (`Connection.slotted`), every operation on slots gives the
answer that the operation on the connection gives, and leaves the slots that the connection then
sets (`SlotConnection.operate_slotted`). So the slots never contradict each other, although they are
set one by one: what is true of a connection at any time is true of them
(`SlotConnection.orderly_run`).
-/

namespace MailProtocol

variable {γ υ δ ω : Type}

/-- Using the stream does not replace it. -/
theorem Transport.Uses.upgraded {t t' : Transport} {o : Except StreamError Unit}
    (h : t.Uses o t') : t'.upgraded = t.upgraded := by
  cases h with
  | fill => exact ((t.sameStanding_use .fill).resolve_right (by simp)).1.2
  | writeAll data => exact ((t.sameStanding_use (.write data)).resolve_right (by simp)).1.2
  | flush => exact ((t.sameStanding_use .flush).resolve_right (by simp)).1.2

/-! ## What the standing in life says of the link -/

namespace Link

/-- There is a transport just while the connection is open. -/
theorem isSome_transport? (l : Link) :
    l.transport?.isSome ↔ l.lifecycle = .connected ∨ l.lifecycle = .upgraded := by
  rcases l with _ | t | _
  · simp [transport?, lifecycle]
  · cases hup : t.upgraded <;> simp [transport?, lifecycle, hup]
  · simp [transport?, lifecycle]

/-- The stream has been replaced just where the standing in life says so. -/
theorem upgraded_transport? (l : Link) :
    (∃ t, l.transport? = some t ∧ t.upgraded) ↔ l.lifecycle = .upgraded := by
  rcases l with _ | t | _
  · simp [transport?, lifecycle]
  · cases hup : t.upgraded <;> simp [transport?, lifecycle, hup]
  · simp [transport?, lifecycle]

end Link

namespace Connection

/-- The slots that a connection sets. -/
def slotted (c : Connection γ υ δ) : SlotConnection γ υ δ where
  label := c.label
  chunkSize := c.chunkSize
  lifecycle := c.lifecycle
  transport := c.link.transport?
  receiver := c.receiver.slotted
  writer := c.writer
  queue := c.queue
  pending := c.pending
  goAheadPending := c.goAheadPending
  idle := c.idle
  log := c.log
  output := c.output

/-- The end of waiting with the slots of the connection, which has put the result into the queue. -/
def Polled.slotted : Polled γ υ δ → SlotConnection.Polled γ υ δ
  | (.ok (some result), c) => (.ok true, { c with queue := c.queue ++ [result] }.slotted)
  | (.ok none, c) => (.ok false, c.slotted)
  | (.error e, c) => (.error e, c.slotted)

variable {c : Connection γ υ δ} {t t' : Transport}

/-- Another transport changes one slot, if it has been replaced just as this one. -/
theorem slotted_connected (hl : c.link = .connected t) (hupgraded : t'.upgraded = t.upgraded) :
    { c with link := .connected t' }.slotted = { c.slotted with transport := some t' } := by
  simp only [slotted, lifecycle, Link.lifecycle, Link.transport?, hl, hupgraded]

/-- The standing in life refuses a stream as the link does. -/
theorem attachError?_lifecycle (c : Connection γ υ δ) :
    c.lifecycle.attachError? = c.attachError? := by
  rw [lifecycle, attachError?]
  rcases c.link with _ | t | _
  · rfl
  · cases hupgraded : t.upgraded <;> simp [Link.lifecycle, Lifecycle.attachError?, hupgraded]
  · rfl

/-- The standing in life refuses to send and to receive as the link does. -/
theorem openError?_lifecycle (c : Connection γ υ δ) : c.lifecycle.openError? = c.openError? := by
  rw [lifecycle, openError?]
  rcases c.link with _ | t | _
  · rfl
  · cases hupgraded : t.upgraded <;> simp [Link.lifecycle, Lifecycle.openError?, hupgraded]
  · rfl

/-! ## Draining one by one -/

/-- What has become of the connection `c` when so much has been drained and put into the queue. -/
def queuedSoFar (c : Connection γ υ δ) (t : Transport)
    (a : List (Except Malformed υ) × Reception γ) : Connection γ υ δ :=
  { drainedSoFar c t a with queue := c.queue ++ a.1.reverse }

/-- What has become of the connection `c` when all this has been drained. -/
def queuedAll (c : Connection γ υ δ) (t : Transport) (d : Reception.Drained γ υ) :
    Connection γ υ δ :=
  { queuedSoFar c t (d.1.reverse, d.2.2) with goAheadPending := d.2.1 }

theorem queuedSoFar_nil (hl : c.link = .connected t) :
    queuedSoFar c t ([], c.receiver.reception t) = c := by
  simp only [queuedSoFar, drainedSoFar, List.reverse_nil, List.foldl_nil, List.append_nil]
  change { c with link := .connected t } = c
  rw [← hl]

theorem drain_eq_queuedAll {E : Endpoint γ υ δ ω} (hl : c.link = .connected t) :
    c.drain E = queuedAll c t (Reception.drain E.lawful (c.receiver.reception t)) := by
  rcases hdrain : Reception.drain E.lawful (c.receiver.reception t) with ⟨results, goAhead, r⟩
  have hqueue : (results.foldl warnResult c).queue = c.queue := by
    obtain ⟨log, hwarned⟩ := foldl_warnResult results c
    rw [hwarned]
  rw [drain, hl]
  simp only [Receiver.drain, hdrain, queuedAll, queuedSoFar, drainedSoFar, List.reverse_reverse]
  rw [← hqueue]
  rfl

theorem goAheadPending_queuedSoFar (c : Connection γ υ δ) (t : Transport)
    (a : List (Except Malformed υ) × Reception γ) :
    (queuedSoFar c t a).goAheadPending = c.goAheadPending := by
  obtain ⟨log, hwarned⟩ := foldl_warnResult a.1.reverse c
  rw [queuedSoFar, drainedSoFar, hwarned]

/-- What is drained next goes behind what has been drained. -/
theorem queuedSoFar_cons (c : Connection γ υ δ) (t : Transport) (result : Except Malformed υ)
    (results : List (Except Malformed υ)) (a : Reception γ) :
    (queuedSoFar c t (result :: results, a)).slotted
      = (queuedSoFar c t (results, a)).slotted.enqueue result := by
  have hqueue : c.queue ++ (result :: results).reverse
      = c.queue ++ results.reverse ++ [result] := by
    rw [List.reverse_cons, List.append_assoc]
  rw [queuedSoFar, drainedSoFar_cons, hqueue]
  cases result <;> rfl

/-- When a result has been waited for, nothing is owed to the peer. -/
theorem goAheadPending_of_wait {E : Endpoint γ υ δ ω} (hl : c.link = .connected t)
    (hqueue : c.queue = []) (hpending : c.goAheadPending = false) {result : Except Malformed υ}
    {c' : Connection γ υ δ} (hwait : c.wait E = (.ok (some result), c')) :
    c'.goAheadPending = false := by
  have hstops := wait_cases (E := E) hl hqueue hpending
  generalize hb : c.wait E = b at hstops
  rw [hb] at hwait
  cases hstops with
  | result _ hnone =>
    obtain rfl := (Prod.mk.inj hwait).2
    exact hnone
  | blocked =>
    have hresult := (Prod.mk.inj hwait).1
    split at hresult <;> cases hresult
  | ended => cases hwait
  | broken hbroken =>
    cases hbroken
    cases hwait

end Connection

namespace SlotConnection

open Connection (slotted slotted_connected queuedSoFar queuedAll)

variable (E : Endpoint γ υ δ ω) {t : Transport} (c : Connection γ υ δ)

/-! ## Life -/

theorem attach_slotted (stream : Stream) (peer : Option String) :
    c.slotted.attach stream peer = (c.attach stream peer).map id slotted := by
  have herror : c.slotted.lifecycle.attachError? = c.attachError? := c.attachError?_lifecycle
  unfold attach Connection.attach
  rw [herror]
  rcases c.attachError? with _ | e
  · cases peer <;> rfl
  · rfl

/-- Closing sets all slots anew, whatever was said of the life of the connection. -/
theorem close_slotted (l : Lifecycle) :
    { c.slotted with lifecycle := l }.close E = (c.close E).slotted := by
  rcases hl : c.link with _ | t | _ <;>
  · simp only [close, Connection.close, slotted, Connection.isOpen, hl, Link.transport?]
    rfl

/-- A connection that fails over the transport `t` says so in the log and is closed. -/
theorem fails_slotted (t : Transport) (level : LogLevel) (text : String) (l : Lifecycle) :
    ({ c.slotted with lifecycle := l, transport := some t }.note level text).close E
      = (({ c with link := .connected t }.note level text).close E).slotted := by
  have hclose := close_slotted E ({ c with link := .connected t }.note level text) l
  exact hclose

/-- The connection is marked as upgraded just when its transport is, and a handshake that fails
closes it. -/
theorem upgrade_slotted (handshake : Stream → Except Error Stream) :
    c.slotted.upgrade E handshake = (c.upgrade E handshake).map id slotted := by
  have hlife : c.slotted.lifecycle = c.link.lifecycle := rfl
  have htransport : c.slotted.transport = c.link.transport? := rfl
  rw [upgrade, Connection.upgrade, hlife, htransport]
  rcases c.link with _ | t | _
  · rfl
  · cases hupgraded : t.upgraded with
    | true =>
      simp only [Link.lifecycle, hupgraded, Lifecycle.upgradeError?, if_true]
      rfl
    | false =>
      simp only [Link.lifecycle, hupgraded, Lifecycle.upgradeError?, Link.transport?,
        Bool.false_eq_true, if_false]
      rcases hreplace : t.upgrade handshake with ⟨e | _, t'⟩
      · exact congrArg (Prod.mk _) (fails_slotted E c t' .warn _ .connected)
      · obtain ⟨-, hreplaced, -⟩ := t.isQueue.upgrade_ok hreplace
        simp only [Prod.map, id, slotted, Connection.info, Connection.note, Connection.lifecycle,
          Link.lifecycle, hreplaced]
        rfl
  · rfl

theorem mapStream_slotted (f : Stream → Stream) :
    { c.slotted with transport := c.slotted.transport.map (·.mapStream f) }
      = (c.mapStream f).slotted := by
  have htransport : c.slotted.transport = c.link.transport? := rfl
  rw [htransport, Connection.mapStream]
  rcases hl : c.link with _ | t | _
  · simp only [Link.transport?, Option.map_none, slotted, hl]
  · have hsame : (t.mapStream f).upgraded = t.upgraded := rfl
    exact (slotted_connected hl hsame).symm
  · simp only [Link.transport?, Option.map_none, slotted, hl]

/-! ## Sending -/

/-- Writing changes no slot but the transport and the record of what was written, or closes the
connection. -/
theorem transmit_slotted (data : Bytes) :
    c.slotted.transmit E data = (c.transmit E data).map id slotted := by
  have htransport : c.slotted.transport = c.link.transport? := rfl
  have houtput : c.slotted.output = c.output := rfl
  rw [transmit, Connection.transmit, htransport, houtput]
  rcases hl : c.link with _ | t | _
  · rfl
  · have hwritten := (Transport.Uses.writeAll (t := t) data).upgraded
    simp only [Link.transport?]
    rcases hwrite : t.writeAll data with ⟨e | _, t₁⟩
    · exact congrArg (Prod.mk _) (fails_slotted E c t₁ .warn _ c.lifecycle)
    · have hflushed := (Transport.Uses.flush (t := t₁)).upgraded
      rw [hwrite] at hwritten
      dsimp only
      generalize (if data.isEmpty then c.output else c.output ++ [data]) = output
      rcases hflush : t₁.flush with ⟨e | _, t₂⟩
      · exact congrArg (Prod.mk _) (fails_slotted E { c with output } t₂ .warn _ c.lifecycle)
      · rw [hflush] at hflushed
        have hsame := slotted_connected (c := { c with output }) hl (hflushed.trans hwritten)
        exact congrArg (Prod.mk _) hsame.symm
  · rfl

theorem sendOutcome_slotted : c.slotted.sendOutcome = c.sendOutcome := by
  rw [sendOutcome, Connection.sendOutcome, Connection.isAwaiting]
  have hpending : c.slotted.pending = c.pending := rfl
  rw [hpending]
  cases c.pending <;> rfl

theorem send_slotted (unit : ω) :
    c.slotted.send E unit = (c.send E unit).map id slotted := by
  have herror : c.slotted.lifecycle.openError? = c.openError? := c.openError?_lifecycle
  have hpending : c.slotted.pending = c.pending := rfl
  have hwriter : c.slotted.writer = c.writer := rfl
  unfold send Connection.send
  rw [herror, hpending, hwriter, Connection.isAwaiting]
  rcases c.openError? with _ | e
  · cases !c.pending.isEmpty
    · simp only [Bool.false_eq_true, if_false, transmit_slotted, Connection.sendSegment]
      rcases c.transmit E (E.write c.writer unit).first with ⟨e | _, c'⟩
      · rfl
      · have houtcome := sendOutcome_slotted { c' with pending := (E.write c.writer unit).rest }
        exact Prod.ext (congrArg Except.ok houtcome) rfl
    · rfl
  · rfl

/-- What waits to be sent has no say in a write, and is lost when the write fails. -/
theorem transmit_pending {c : Connection γ υ δ} (hl : c.link = .connected t) (data : Bytes)
    (pending : List Bytes) : { c with pending }.transmit E data
      = match c.transmit E data with
        | (.error e, c') => (.error e, c')
        | (.ok (), c') => (.ok (), { c' with pending }) := by
  simp only [Connection.transmit, hl]
  rcases t.writeAll data with ⟨e | _, t₁⟩
  · rfl
  · dsimp only
    rcases t₁.flush with ⟨e | _, t₂⟩ <;> rfl

theorem sendContinuation_slotted :
    c.slotted.sendContinuation E = (c.sendContinuation E).map id slotted := by
  have herror : c.slotted.lifecycle.openError? = c.openError? := c.openError?_lifecycle
  have hpending : c.slotted.pending = c.pending := rfl
  unfold sendContinuation Connection.sendContinuation
  rw [herror, hpending, Connection.openError?]
  rcases hl : c.link with _ | t | _
  · rfl
  · rcases c.pending with _ | ⟨segment, pending⟩
    · rfl
    · -- the segment waits no more when it is written, whether or not that goes well
      have hwrite := transmit_slotted E { c with pending } segment
      have hslots : { c with pending }.slotted = { c.slotted with pending } := rfl
      rw [hslots, transmit_pending E hl segment pending] at hwrite
      simp only [hwrite, Connection.sendSegment]
      rcases c.transmit E segment with ⟨e | _, c'⟩
      · rfl
      · have houtcome := sendOutcome_slotted { c' with pending }
        exact Prod.ext (congrArg Except.ok houtcome) rfl
  · rfl

/-! ## Receiving -/

theorem sendGoAhead_slotted : c.slotted.sendGoAhead E = (c.sendGoAhead E).map id slotted := by
  unfold sendGoAhead Connection.sendGoAhead
  rcases E.grammar.continuationRequest with _ | request
  · rfl
  · exact transmit_slotted E c request

theorem fill_slotted : c.slotted.fill E = (c.fill E).map id slotted := by
  have htransport : c.slotted.transport = c.link.transport? := rfl
  have hidle : c.slotted.idle = c.idle := rfl
  unfold fill Connection.fill
  rw [htransport, hidle]
  rcases hl : c.link with _ | t | _
  · rfl
  · have hsame := slotted_connected hl (Transport.Uses.fill (t := t)).upgraded
    simp only [Link.transport?]
    rcases hfill : t.fill with ⟨e | n, t'⟩
    · rw [hfill] at hsame
      dsimp only
      split
      · exact congrArg (Prod.mk _) hsame.symm
      · split
        · exact congrArg (Prod.mk _) hsame.symm
        · exact congrArg (Prod.mk _) (fails_slotted E c t' .warn _ c.lifecycle)
    · rw [hfill] at hsame
      dsimp only
      split
      · exact congrArg (Prod.mk _) (fails_slotted E c t' .info _ c.lifecycle)
      · exact congrArg (Prod.mk _) hsame.symm
  · rfl

/-- A round of waiting does what a step of waiting does, but puts the result into the queue. -/
theorem poll_slotted : c.slotted.poll E = (c.poll E).map slotted Connection.Polled.slotted := by
  have htransport : c.slotted.transport = c.link.transport? := rfl
  have hreceiver : c.slotted.receiver = c.receiver.slotted := rfl
  unfold poll Connection.poll
  rw [htransport, hreceiver]
  rcases hl : c.link with _ | t | _
  · rfl
  · simp only [Link.transport?, SlotReceiver.receive_slotted]
    rcases hreceive : c.receiver.receive E.grammar t with ⟨result, receiver, t'⟩
    have hupgraded := (Receiver.sameSource_of_receive hreceive).upgraded
    have hsame := slotted_connected (c := { c with receiver }) hl hupgraded
    have hslots : { c.slotted with receiver := receiver.slotted, transport := some t' }
      = { c with receiver, link := .connected t' }.slotted := hsame.symm
    generalize { c with receiver, link := .connected t' } = c' at hslots
    dsimp only at hslots ⊢
    rcases result with report | unit | n | ⟨missing, goAhead⟩
    · dsimp only
      rw [hslots]
      rfl
    · dsimp only
      rw [hslots]
      rfl
    · dsimp only
      rw [hslots, fill_slotted]
      rcases c'.fill E with ⟨e | (_ | _), c''⟩ <;> rfl
    · cases goAhead with
      | false => exact congrArg Sum.inl hslots
      | true =>
        dsimp only
        rw [hslots, sendGoAhead_slotted]
        rcases c'.sendGoAhead E with ⟨e | _, c''⟩ <;> rfl
  · rfl

theorem wait_slotted : c.slotted.wait E = (c.wait E).slotted := iterate_map (poll_slotted E) c

/-- A round of draining does what a step of draining does, but puts the result into the queue. -/
theorem drainStep_queuedSoFar {c : Connection γ υ δ} (hpending : c.goAheadPending = false)
    (t : Transport) (a : List (Except Malformed υ) × Reception γ) :
    drainStep E (queuedSoFar c t a).slotted = (Reception.drainStep E.grammar a).map
      (fun a => (queuedSoFar c t a).slotted) (fun d => (queuedAll c t d).slotted) := by
  obtain ⟨results, a⟩ := a
  have htransport : (queuedSoFar c t (results, a)).slotted.transport
    = some { t with buffer := a.buffer } := rfl
  have hreceiver : (queuedSoFar c t (results, a)).slotted.receiver
    = (Receiver.ofReception a).slotted := rfl
  unfold drainStep Reception.drainStep
  rw [htransport, hreceiver]
  rcases hadv : Reception.advance E.grammar a with ⟨result, a'⟩
  have hreceive : (Receiver.ofReception a).receive E.grammar { t with buffer := a.buffer }
      = (result, .ofReception a', { t with buffer := a'.buffer }) :=
    Connection.receive_drainedSoFar c t results hadv
  have hslots : { (queuedSoFar c t (results, a)).slotted with
        receiver := (Receiver.ofReception a').slotted
        transport := some { t with buffer := a'.buffer } }
      = (queuedSoFar c t (results, a')).slotted := rfl
  simp only [SlotReceiver.receive_slotted, hreceive]
  dsimp only at hslots
  rcases result with report | unit | n | ⟨missing, goAhead⟩
  · dsimp only
    rw [hslots]
    exact congrArg Sum.inl (Connection.queuedSoFar_cons ..).symm
  · dsimp only
    rw [hslots]
    exact congrArg Sum.inl (Connection.queuedSoFar_cons ..).symm
  · -- no literal waits, neither before nor now
    have hnone : (queuedSoFar c t (results, a')).goAheadPending = false :=
      (Connection.goAheadPending_queuedSoFar c t _).trans hpending
    dsimp only
    rw [hslots]
    simp only [Sum.map_inr, queuedAll, List.reverse_reverse]
    generalize queuedSoFar c t (results, a') = c' at hnone
    rw [← hnone]
  · simp only [Sum.map_inr, queuedAll, List.reverse_reverse]
    rfl

/-- What is drained goes into the queue and the log as it comes, instead of all at once. -/
theorem drain_slotted (hpending : c.goAheadPending = false) :
    c.slotted.drain E = (c.drain E).slotted := by
  have htransport : c.slotted.transport = c.link.transport? := rfl
  rcases hl : c.link with _ | t | _
  · rw [drain, iterate_eq, drainStep, htransport, Connection.drain, hl]
    rfl
  · have hdrained : (queuedSoFar c t ([], c.receiver.reception t)).slotted.drain E
        = (queuedAll c t (Reception.drain E.lawful (c.receiver.reception t))).slotted :=
      iterate_map (drainStep_queuedSoFar E hpending t) ([], c.receiver.reception t)
    rwa [Connection.queuedSoFar_nil hl, ← Connection.drain_eq_queuedAll hl] at hdrained
  · rw [drain, iterate_eq, drainStep, htransport, Connection.drain, hl]
    rfl

theorem takeQueued_slotted : c.slotted.takeQueued = c.takeQueued.map id slotted := by
  have hqueue : c.slotted.queue = c.queue := rfl
  rw [takeQueued, Connection.takeQueued, hqueue]
  rcases c.queue with _ | ⟨report | unit, queue⟩ <;> rfl

theorem settleGoAhead_slotted :
    c.slotted.settleGoAhead E = (c.settleGoAhead E).map id slotted := by
  have hpending : c.slotted.goAheadPending = c.goAheadPending := rfl
  rw [settleGoAhead, Connection.settleGoAhead, hpending]
  cases c.goAheadPending with
  | false => rfl
  | true => exact sendGoAhead_slotted E { c with goAheadPending := false }

/-- What is owed to the peer has been settled before the buffer is drained, so draining says anew
whether anything is. -/
theorem receive_slotted : c.slotted.receive E = (c.receive E).map id slotted := by
  have herror : c.slotted.lifecycle.openError? = c.openError? := c.openError?_lifecycle
  have hqueue : c.slotted.queue = c.queue := rfl
  rw [receive, Connection.receive, herror, hqueue, settleGoAhead_slotted, takeQueued_slotted]
  rcases hempty : c.queue with _ | ⟨result, queue⟩
  · rw [Connection.openError?]
    rcases hl : c.link with _ | t | _
    · rfl
    · simp only [List.isEmpty_nil, Bool.not_true, Bool.false_eq_true, if_false]
      rcases Connection.settleGoAhead_cases (E := E) hl hempty with
        ⟨c₁, t₁, hsettle, hmoves, hpending, hempty₁⟩ | ⟨e, c₁, hsettle, -⟩
      · simp only [hsettle, Prod.map, id, wait_slotted, Connection.fetch]
        rcases hwait : c₁.wait E with ⟨e | (_ | result), c₂⟩
        · rfl
        · rfl
        · have hnone := Connection.goAheadPending_of_wait hmoves.link hempty₁ hpending hwait
          have hdrain := drain_slotted E { c₂ with queue := c₂.queue ++ [result] } hnone
          simp only [Connection.Polled.slotted, hdrain, takeQueued_slotted]
          rfl
      · simp only [hsettle]
        rfl
    · rfl
  · rfl

/-! ## Any row of operations -/

/-- An operation on the slots does what it does on the connection. -/
theorem operate_slotted (op : Operation γ δ ω) :
    c.slotted.operate E op = (c.operate E op).map id slotted := by
  cases op with
  | attach stream peer => exact attach_slotted c stream peer
  | upgrade handshake => exact upgrade_slotted E c handshake
  | send unit =>
    simp only [operate, send_slotted]
    rfl
  | sendContinuation =>
    simp only [operate, sendContinuation_slotted]
    rfl
  | receive =>
    simp only [operate, receive_slotted]
    rfl
  | setIdle | setWriter | mapState => rfl
  | close => exact congrArg (Prod.mk _) (close_slotted E c c.lifecycle)
  | meanwhile f => exact congrArg (Prod.mk _) (mapStream_slotted c f)

theorem run_slotted (ops : List (Operation γ δ ω)) :
    c.slotted.run E ops = (c.run E ops).slotted := by
  induction ops generalizing c with
  | nil => rfl
  | cons op ops ih =>
    have hnext : (c.slotted.operate E op).2 = (c.operate E op).2.slotted := by
      rw [operate_slotted]
      rfl
    rw [run, List.foldl_cons, hnext]
    exact ih (c.operate E op).2

/-! ## Agreement -/

/-- Nothing is left of what has been received or was to be sent. -/
structure Cleared (s : SlotConnection γ υ δ) : Prop where
  queue : s.queue = []
  pending : s.pending = []
  goAheadPending : s.goAheadPending = false
  slots : s.receiver.slots = {}

/-- What the slots of a connection say at any time. -/
structure Sound (s : SlotConnection γ υ δ) : Prop where
  /-- There is a transport while the connection is open, and no other transport. -/
  present : s.transport.isSome ↔ s.lifecycle = .connected ∨ s.lifecycle = .upgraded
  /-- The transport has a stream. -/
  isOpen : ∀ t, s.transport = some t → t.isOpen
  upgraded : (∃ t, s.transport = some t ∧ t.upgraded) ↔ s.lifecycle = .upgraded
  /-- If the peer waits to be asked for a literal, then the receiver waits for that literal. -/
  owing : s.goAheadPending → s.receiver.slots.continuing
  /-- A connection that is not open has nothing to hand out, to send or to go on with. -/
  cleared : s.lifecycle = .unconnected ∨ s.lifecycle = .closed → s.Cleared

/-- The connection has been closed. -/
structure Shut (s : SlotConnection γ υ δ) : Prop extends Cleared s where
  lifecycle : s.lifecycle = .closed
  transport : s.transport = none

/-- The handshake is tried, and fails with `e`. -/
def FailedHandshake (s : SlotConnection γ υ δ) (op : Operation γ δ ω) (e : Error) : Prop :=
  ∃ handshake t stream, op = .upgrade handshake ∧ s.lifecycle = .connected ∧ s.transport = some t
    ∧ t.stream = some stream ∧ handshake stream = .error e

theorem cleared_slotted {c : Connection γ υ δ} (h : c.Cleared) : c.slotted.Cleared where
  queue := h.queue
  pending := h.pending
  goAheadPending := h.goAheadPending
  slots := congrArg Fragment.slots h.fragment

theorem sound_slotted {c : Connection γ υ δ} (h : c.Sound) : c.slotted.Sound where
  present := c.link.isSome_transport?
  isOpen := h.isOpen
  upgraded := c.link.upgraded_transport?
  owing hpending := by
    have hsame : c.slotted.receiver.slots.continuing = c.receiver.fragment.isContinuing :=
      c.receiver.fragment.continuing_slots
    rw [hsame]
    exact h.owing hpending
  cleared hlife := cleared_slotted (h.cleared hlife)

theorem shut_slotted {c : Connection γ υ δ} (h : c.Shut) : c.slotted.Shut where
  toCleared := cleared_slotted h.toCleared
  lifecycle := congrArg Link.lifecycle h.link
  transport := congrArg Link.transport? h.link

theorem failedHandshake_slotted {c : Connection γ υ δ} {op : Operation γ δ ω} {e : Error}
    (h : c.FailedHandshake op e) : c.slotted.FailedHandshake op e := by
  obtain ⟨handshake, t, stream, hop, hl, hupgraded, hstream, hfails⟩ := h
  have hlife : c.slotted.lifecycle = .connected := by
    simp only [slotted, Connection.lifecycle, hl, Link.lifecycle, hupgraded, Bool.false_eq_true,
      if_false]
  exact ⟨handshake, t, stream, hop, hlife, congrArg Link.transport? hl, hstream, hfails⟩

/-- The slots of a connection that was new agree after any operations on it, whatever its streams
do: they are those of a sound connection, and the next operation gives the answer that it gives on
that connection. It leads at most one step on in the life of the connection, and never back from the
end. If it comes at the wrong time, it changes no slot; only a handshake that fails closes the
connection, whatever error it gives. -/
theorem orderly_run (E : Endpoint γ υ δ ω) (label : LogLabel) (chunkSize : Nat) (state : γ)
    (writer : δ) (ops : List (Operation γ δ ω)) (op : Operation γ δ ω) :
    let c := (Connection.new label chunkSize state writer).run E ops
    let s := (new label chunkSize state writer).run E ops
    let (result, s') := s.operate E op
    s = c.slotted ∧ (result, s') = (c.operate E op).map id slotted
      ∧ s.Sound ∧ s'.Sound ∧ Lifecycle.Step s.lifecycle s'.lifecycle
      ∧ (s.lifecycle = .closed → s'.lifecycle = .closed)
      ∧ ∀ e, result = .error e → e.isMisuse ∨ e = .closed ∧ s.lifecycle = .closed →
        s' = s ∨ s.FailedHandshake op e ∧ s'.Shut := by
  intro c s
  have hs : s = c.slotted := run_slotted E (.new label chunkSize state writer) ops
  have hsound : c.Sound := Connection.sound_run E (.new label chunkSize state writer) ops
  have hacts := Connection.acts_operate E hsound op
  have hstep := hacts.step
  rw [hs, operate_slotted]
  refine ⟨rfl, rfl, sound_slotted hsound, sound_slotted (hacts.sound hsound), hstep, ?_, ?_⟩
  · intro hclosed
    have hlife : c.lifecycle = .closed := hclosed
    rw [hlife] at hstep
    exact hstep.eq_closed
  · intro e he hwrong
    rcases hacts.unchanged he hwrong with hsame | ⟨hfailed, hshut⟩
    · exact .inl (congrArg slotted hsame)
    · exact .inr ⟨failedHandshake_slotted hfailed, shut_slotted hshut⟩

end SlotConnection

end MailProtocol
