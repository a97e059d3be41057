import MailProtocol.Connection.Receive
import MailProtocol.Proofs.Connection.Writes
import MailProtocol.Proofs.Reception.Runs

/-!
# What receiving does

`Connection.Moves` says how a connection gets from one state to another while it receives: which
reads it makes, what is reported from them, what of it is handed out, and for which literals the
peer is asked. Every part of receiving is such a move, and so is one after the other
(`Moves.trans`). A call of `Connection.receive` hands out a result, finds that nothing can be read
now, or finds the end of the stream (`Received`), unless it fails to ask for a literal (`Broken`):
that is all it can do (`receive_cases`). Where no write and no flush fails, the last is out of the
question (`received`).
-/

namespace MailProtocol

variable {γ υ δ ω : Type}

/-- What is written to ask for so many literals. -/
def Endpoint.requests (E : Endpoint γ υ δ ω) (count : Nat) : List Bytes :=
  (List.replicate count ((E.grammar.continuationRequest.map Bytes.asWrites).getD [])).flatten

theorem Endpoint.requests_add (E : Endpoint γ υ δ ω) (m n : Nat) :
    E.requests (m + n) = E.requests m ++ E.requests n := by
  rw [requests, List.replicate_add, List.flatten_append]
  rfl

/-- Reading has come to the end of the stream, or to a failure that does not pass. -/
def Transport.Ends (t : Transport) : Prop :=
  t.reads = [] ∧ t.staysOpen = false ∨ ∃ r rs, t.reads = r :: rs ∧ ¬r.lasts

/-- The last read, of which `rs` are recorded, found nothing there to be read now. -/
def Transport.Blocked (t : Transport) (rs : List Read) : Prop :=
  (∃ e : StreamError, rs.getLast? = some (.error e) ∧ e.isWouldBlock)
    ∨ t.reads = [] ∧ t.staysOpen = true

/-- The connection has come to its end, or a failure of its stream has ended it. -/
def Error.isEnd : Error → Bool
  | .closed | .stream _ => true
  | _ => false

namespace Connection

/-- How a result is handed out. -/
def handed : Except Malformed υ → Except Error (Option υ)
  | .ok unit => .ok (some unit)
  | .error report => .error (.malformed report)

/-- The literal that the peer waits to be asked for, if so many results come before it. -/
def owed (c : Connection γ υ δ) (before : Nat) : List Nat :=
  if c.goAheadPending then [before] else []

/-- The receiver can do nothing with what is there. -/
def Starved (E : Endpoint γ υ δ ω) (c : Connection γ υ δ) (t : Transport) : Prop :=
  ∃ n, Reception.advance E.grammar (c.receiver.reception t)
    = (.ok (.needMore n), c.receiver.reception t)

theorem Starved.of_eq {E : Endpoint γ υ δ ω} {c c' : Connection γ υ δ} {t t' : Transport}
    (h : Starved E c t) (hreceiver : c'.receiver = c.receiver) (hbuffer : t'.buffer = t.buffer) :
    Starved E c' t' := by
  have hsame : c'.receiver.reception t' = c.receiver.reception t := by
    rw [Receiver.reception, Receiver.reception, hreceiver, hbuffer]
  rwa [Starved, hsame]

/-- If the peer waits to be asked for a literal, then the receiver waits for that literal. -/
def Owing (c : Connection γ υ δ) : Prop := c.goAheadPending → c.receiver.fragment.isContinuing

/-- Receiving leaves alone what is only for sending, and whether the connection is idle. -/
structure SameSettings (c c' : Connection γ υ δ) : Prop where
  idle : c'.idle = c.idle
  writer : c'.writer = c.writer
  pending : c'.pending = c.pending

/-- The connection `c` over `t` gets to `c'` over `t'` while it receives. It makes the reads `rs`,
reports `os` from them, and hands out `given`. -/
structure Moves (E : Endpoint γ υ δ ω) (c : Connection γ υ δ) (t : Transport)
    (given : List (Except Malformed υ)) (rs : List Read) (os : List (Reported υ))
    (c' : Connection γ υ δ) (t' : Transport) : Prop extends t.SameStream t' where
  link : c'.link = .connected t'
  reads : t.reads = rs ++ t'.reads
  lasting : ∀ r ∈ rs, r.lasts
  runs : Reception.Runs E.grammar (c.receiver.reception t) (Read.pieces rs) os
    (c'.receiver.reception t')
  queue : c.queue ++ Reported.results os = given ++ c'.queue
  /-- If so many results have been handed out before, then the peer is asked for some literals
  that come right after these. -/
  output : ∃ k, c'.output = c.output ++ E.requests k ∧ ∀ before,
    List.replicate k before ++ c'.owed (before + (c.queue ++ Reported.results os).length)
      = c.owed (before + c.queue.length) ++ Reported.dues (before + c.queue.length) os
  /-- What the stream is given is recorded. -/
  written : ∃ writes, c'.output = c.output ++ writes ∧ t'.written = t.written ++ writes
  owing : c.Owing → c'.Owing
  settings : c.SameSettings c'

namespace Moves

variable {E : Endpoint γ υ δ ω} {c c' c'' : Connection γ υ δ} {t t' t'' : Transport}
  {given : List (Except Malformed υ)} {rs rs' : List Read} {os os' : List (Reported υ)}

/-- One move after another, of which only the second hands anything out. -/
theorem trans (h : Moves E c t [] rs os c' t') (h' : Moves E c' t' given rs' os' c'' t'') :
    Moves E c t given (rs ++ rs') (os ++ os') c'' t'' where
  toSameStream := h.toSameStream.trans h'.toSameStream
  link := h'.link
  reads := by rw [h.reads, h'.reads, List.append_assoc]
  lasting := List.forall_mem_append.2 ⟨h.lasting, h'.lasting⟩
  runs := by
    rw [Read.pieces_append h.lasting]
    exact h.runs.trans h'.runs
  queue := by
    rw [Reported.results_append, ← List.append_assoc, h.queue, List.nil_append, h'.queue]
  output := by
    obtain ⟨k, hk, howed⟩ := h.output
    obtain ⟨k', hk', howed'⟩ := h'.output
    have hqueue : c'.queue = c.queue ++ Reported.results os := h.queue.symm
    refine ⟨k + k', by rw [hk', hk, List.append_assoc, E.requests_add], fun before => ?_⟩
    have howed' := howed' before
    rw [hqueue] at howed'
    rw [Reported.results_append, ← List.append_assoc, List.replicate_add, List.append_assoc, howed',
      ← List.append_assoc, howed, Reported.dues_append, List.append_assoc, List.length_append,
      Nat.add_assoc]
  written := by
    obtain ⟨writes, houtput, hwritten⟩ := h.written
    obtain ⟨writes', houtput', hwritten'⟩ := h'.written
    refine ⟨writes ++ writes', ?_, ?_⟩
    · rw [houtput', houtput, List.append_assoc]
    · rw [hwritten', hwritten, List.append_assoc]
  owing := h'.owing ∘ h.owing
  settings := ⟨h'.settings.idle.trans h.settings.idle, h'.settings.writer.trans h.settings.writer,
    h'.settings.pending.trans h.settings.pending⟩

/-- If nothing is reported or written, what is owed to the peer stays owed. -/
theorem output_of_silent (houtput : c'.output = c.output)
    (hpending : c'.goAheadPending = c.goAheadPending) :
    ∃ k, c'.output = c.output ++ E.requests k ∧ ∀ before,
      List.replicate k before
          ++ c'.owed (before + (c.queue ++ Reported.results ([] : List (Reported υ))).length)
        = c.owed (before + c.queue.length)
          ++ Reported.dues (before + c.queue.length) ([] : List (Reported υ)) := by
  refine ⟨0, houtput.trans (List.append_nil _).symm, fun before => ?_⟩
  simp [owed, hpending, Reported.results, Reported.dues]

theorem written_of_silent (houtput : c'.output = c.output) (hwritten : t'.written = t.written) :
    ∃ writes, c'.output = c.output ++ writes ∧ t'.written = t.written ++ writes :=
  ⟨[], houtput.trans (List.append_nil _).symm, hwritten.trans (List.append_nil _).symm⟩

theorem refl (hl : c.link = .connected t) : Moves E c t [] [] [] c t where
  toSameStream := .refl t
  link := hl
  reads := rfl
  lasting := List.forall_mem_nil _
  runs := .start
  queue := List.append_nil _
  output := output_of_silent rfl rfl
  written := written_of_silent rfl rfl
  owing := id
  settings := ⟨rfl, rfl, rfl⟩

/-- A report is made from what is there. -/
theorem of_receive {o : Reported υ} {r' : Receiver γ}
    (hrec : c.receiver.receive E.grammar t = (o, r', t')) (ho : ∀ n, o ≠ .ok (.needMore n))
    (hpending : c.goAheadPending = false) (hlink : c'.link = .connected t')
    (hreceiver : c'.receiver = r') (hqueue : c'.queue = c.queue ++ o.result?.toList)
    (hasks : c'.goAheadPending = o.asks) (houtput : c'.output = c.output)
    (hsettings : c.SameSettings c') : Moves E c t [] [] [o] c' t' := by
  have hsource := Receiver.sameSource_of_receive hrec
  have hresults : Reported.results [o] = o.result?.toList := by
    rw [Reported.results_cons]
    exact List.append_nil _
  exact {
    toSameStream := hsource.toSameStream
    link := hlink
    reads := hsource.reads.symm
    lasting := List.forall_mem_nil _
    runs := hreceiver ▸ .of_report (Receiver.advance_of_receive hrec).1 ho
    queue := by rw [hresults, hqueue, List.nil_append]
    output := by
      refine ⟨0, by rw [houtput]; exact (List.append_nil _).symm, fun before => ?_⟩
      rw [owed, owed, hpending, hasks, Reported.dues]
      cases hgo : o.asks
      · simp [Reported.dues]
      · -- an announcement is not a result
        have hnone : o.result?.toList = [] := by
          obtain _ | _ | _ | _ := o <;> simp_all [Reported.asks, Reported.result?]
        simp [Reported.dues, hresults, hnone]
    written := written_of_silent houtput (Receiver.written_of_receive hrec)
    owing := fun _ howes => by
      rw [hasks] at howes
      obtain _ | ⟨_ | _ | ⟨missing, goAhead⟩⟩ := o
      · cases howes
      · cases howes
      · cases howes
      · rw [hreceiver]
        exact Reception.isContinuing_of_advance (Receiver.advance_of_receive hrec).1
    settings := hsettings }

/-- More bytes are needed than are there. -/
theorem of_needMore {n : Nat} {r' : Receiver γ}
    (hrec : c.receiver.receive E.grammar t = (.ok (.needMore n), r', t'))
    (hpending : c.goAheadPending = false) :
    let c' := { c with receiver := r', link := .connected t' }
    Moves E c t [] [] [] c' t' ∧ Starved E c' t' := by
  have hsource := Receiver.sameSource_of_receive hrec
  have hadv := (Receiver.advance_of_receive hrec).1
  refine ⟨?_, n, Reception.advance_of_needMore hadv⟩
  exact {
    toSameStream := hsource.toSameStream
    link := rfl
    reads := hsource.reads.symm
    lasting := List.forall_mem_nil _
    runs := (Reception.Runs.of_needMore hadv).1
    queue := List.append_nil _
    output := output_of_silent rfl rfl
    written := written_of_silent rfl (Receiver.written_of_receive hrec)
    owing := fun _ howes => absurd howes (by rw [hpending]; exact Bool.false_ne_true)
    settings := ⟨rfl, rfl, rfl⟩ }

/-- A read is made when more bytes are needed, and it is not the last one that can be made. -/
theorem of_read {r : Read} {rs : List Read} (hstarved : Starved E c t)
    (hreads : t.reads = r :: rs) (hlasts : r.lasts) (hafter : t.AfterRead r rs t') :
    Moves E c t [] [r] [] { c with link := .connected t' } t' where
  toSameStream := hafter.toSameStream
  link := rfl
  reads := by rw [hreads, hafter.reads, List.singleton_append]
  lasting := List.forall_mem_singleton.2 hlasts
  runs := by
    obtain ⟨n, hadv⟩ := hstarved
    have hext : c.receiver.reception t' = (c.receiver.reception t).extend (r.toOption.getD []) := by
      rw [Receiver.reception, hafter.buffer]
      rfl
    rw [hext]
    cases r with
    | ok d =>
      rw [Read.pieces_cons_ok (by simpa [Read.lasts] using hlasts), Read.pieces_nil]
      exact .of_piece hadv d
    | error e =>
      have hnone : (c.receiver.reception t).extend ((Except.error e : Read).toOption.getD [])
          = c.receiver.reception t := by
        rw [Reception.extend]
        exact congrArg _ (List.append_nil _)
      rw [Read.pieces_cons_error (by exact hlasts), Read.pieces_nil, hnone]
      exact .start
  queue := List.append_nil _
  output := output_of_silent rfl rfl
  written := written_of_silent rfl hafter.written
  owing := id
  settings := ⟨rfl, rfl, rfl⟩

/-- The peer is asked for the literal that it waits to send, when everything before the literal has
been handed out. -/
theorem of_request (hwritten : t.Written (E.requests 1) t')
    (hqueue : c.queue = []) (hpending : c.goAheadPending = true) (hlink : c'.link = .connected t')
    (hreceiver : c'.receiver = c.receiver) (hqueue' : c'.queue = [])
    (hpending' : c'.goAheadPending = false) (houtput : c'.output = c.output ++ E.requests 1)
    (hsettings : c.SameSettings c') : Moves E c t [] [] [] c' t' where
  toSameStream := hwritten.toSameStream
  link := hlink
  reads := hwritten.reads.symm
  lasting := List.forall_mem_nil _
  runs := by
    rw [Receiver.reception, Receiver.reception, hreceiver, hwritten.buffer]
    exact .start
  queue := by rw [hqueue, hqueue']; rfl
  output := ⟨1, houtput, fun before => by
    simp [owed, hpending, hpending', hqueue, Reported.dues]⟩
  written := ⟨_, houtput, hwritten.written⟩
  owing := fun _ howes => absurd howes (by rw [hpending']; exact Bool.false_ne_true)
  settings := hsettings

/-- The first of the queue is handed out. -/
theorem of_queue {result : Except Malformed υ} {rest : List (Except Malformed υ)}
    (hl : c.link = .connected t) (hqueue : c.queue = result :: rest) :
    Moves E c t [result] [] [] { c with queue := rest } t where
  toSameStream := .refl t
  link := hl
  reads := rfl
  lasting := List.forall_mem_nil _
  runs := .start
  queue := by
    rw [hqueue]
    exact List.append_nil _
  output := output_of_silent rfl rfl
  written := written_of_silent rfl rfl
  owing := id
  settings := ⟨rfl, rfl, rfl⟩

end Moves

variable {E : Endpoint γ υ δ ω} {c : Connection γ υ δ} {t : Transport}

/-! ## The parts of receiving -/

/-- Asking for a literal writes the request, or fails to and closes the connection. -/
theorem sendGoAhead_cases (hl : c.link = .connected t) :
    (∃ t', c.sendGoAhead E
        = (.ok (), { c with link := .connected t', output := c.output ++ E.requests 1 })
      ∧ t.Written (E.requests 1) t')
    ∨ ∃ request e c', E.grammar.continuationRequest = some request
      ∧ c.sendGoAhead E = (.error e.ofWrite, c') ∧ Breaks c t request e c' := by
  rw [sendGoAhead, Endpoint.requests]
  rcases hrequest : E.grammar.continuationRequest with _ | request
  · left
    refine ⟨t, ?_, .refl t⟩
    rw [← hl]
    simp
  · rcases transmit_cases E hl request with ⟨t', htransmit, hwritten⟩ | ⟨e, c', htransmit, hbreaks⟩
    · left
      refine ⟨t', ?_, ?_⟩
      · simp [htransmit]
      · simpa using hwritten
    · right
      exact ⟨request, e, c', rfl, htransmit, hbreaks⟩

/-- Asking for a literal fails when everything before it has been reported, and the connection is
closed. -/
inductive Broken {α : Type} (E : Endpoint γ υ δ ω) (c : Connection γ υ δ) (t : Transport) :
    Except Error α × Connection γ υ δ → Prop
  | intro {rs : List Read} {os : List (Reported υ)} {c₁ c' : Connection γ υ δ} {t₁ : Transport}
    {request : Bytes} {e : StreamError} (hmoves : Moves E c t [] rs os c₁ t₁)
    (hresults : Reported.results os = []) (hpending : c₁.goAheadPending = true)
    (hrequest : E.grammar.continuationRequest = some request)
    (hbreaks : Breaks c₁ t₁ request e c') : Broken E c t (.error e.ofWrite, c')

namespace Broken

variable {α β : Type} {b : Except Error α × Connection γ υ δ} {c' : Connection γ υ δ}
  {t' : Transport} {rs : List Read} {os : List (Reported υ)}

/-- What fails after a move fails. -/
theorem of_moves (hmoves : Moves E c t [] rs os c' t') (hresults : Reported.results os = [])
    (h : Broken E c' t' b) : Broken E c t b := by
  obtain ⟨hmoves', hresults', hpending, hrequest, hbreaks⟩ := h
  refine ⟨hmoves.trans hmoves', ?_, hpending, hrequest, hbreaks⟩
  rw [Reported.results_append, hresults, hresults']
  rfl

/-- No request fails to be written to a stream of which no write and no flush fails. -/
theorem not_writable (h : Broken E c t b) : ¬t.Writable := by
  obtain ⟨hmoves, -, -, -, hbreaks⟩ := h
  exact fun hw => hbreaks.fails.not_writable (hmoves.writable hw)

end Broken

/-- The literal that the peer has waited to send since the queue was filled is asked for. -/
theorem settleGoAhead_cases (hl : c.link = .connected t) (hqueue : c.queue = []) :
    (∃ c' t', c.settleGoAhead E = (.ok (), c') ∧ Moves E c t [] [] [] c' t'
        ∧ c'.goAheadPending = false ∧ c'.queue = [])
      ∨ ∃ e c', c.settleGoAhead E = (.error e, c')
        ∧ ∀ {α : Type}, Broken E c t ((.error e, c') : Except Error α × Connection γ υ δ) := by
  rw [settleGoAhead]
  cases hpending : c.goAheadPending with
  | false => exact .inl ⟨c, t, rfl, .refl hl, hpending, hqueue⟩
  | true =>
    rcases sendGoAhead_cases (E := E) (c := { c with goAheadPending := false }) hl with
      ⟨t', hgo, hwritten⟩ | ⟨request, e, c', hrequest, hgo, hbreaks⟩
    · exact .inl ⟨_, t', hgo, .of_request hwritten hqueue hpending rfl rfl hqueue rfl rfl
        ⟨rfl, rfl, rfl⟩, rfl, hqueue⟩
    · refine .inr ⟨e.ofWrite, c', hgo, ?_⟩
      exact ⟨.refl hl, rfl, hpending, hrequest, hbreaks.fails, hbreaks.shut, hbreaks.output⟩

/-- A refusal among what is drained goes into the log. -/
def warnResult (c : Connection γ υ δ) : Except Malformed υ → Connection γ υ δ
  | .ok _ => c
  | .error report => c.warnMalformed report

/-- What is drained changes nothing but the log when it is told. -/
theorem foldl_warnResult (results : List (Except Malformed υ)) (c : Connection γ υ δ) :
    ∃ log, results.foldl warnResult c = { c with log } := by
  induction results generalizing c with
  | nil => exact ⟨c.log, rfl⟩
  | cons result results ih =>
    obtain ⟨log, hlog⟩ : ∃ log, warnResult c result = { c with log } := by
      cases result with
      | error report => exact ⟨_, rfl⟩
      | ok unit => exact ⟨c.log, rfl⟩
    obtain ⟨log', hlog'⟩ := ih (warnResult c result)
    exact ⟨log', by rw [List.foldl_cons, hlog', hlog]⟩

/-- What is there is put into the queue, and warnings go into the log. -/
theorem drain_eq (hl : c.link = .connected t) {results : List (Except Malformed υ)} {goAhead : Bool}
    {r' : Reception γ}
    (hdrain : Reception.drain E.lawful (c.receiver.reception t) = (results, goAhead, r')) :
    ∃ log, c.drain E = { c with
      link := .connected { t with buffer := r'.buffer }
      receiver := .ofReception r'
      goAheadPending := goAhead
      queue := c.queue ++ results
      log } := by
  rw [drain, hl]
  simp only [Receiver.drain, hdrain]
  generalize hfold : List.foldl _ c results = warned
  obtain ⟨log, hlog⟩ := foldl_warnResult results c
  obtain rfl : warned = { c with log } := hfold.symm.trans hlog
  exact ⟨log, rfl⟩

theorem drain_moves (hl : c.link = .connected t) (hpending : c.goAheadPending = false) :
    ∃ os t', Moves E c t [] [] os (c.drain E) t' := by
  have hdrains := Reception.drains_drain E.lawful (c.receiver.reception t)
  have hcontinuing := Reception.isContinuing_of_drain E.lawful (c.receiver.reception t)
  rcases hdrain : Reception.drain E.lawful (c.receiver.reception t) with ⟨results, goAhead, r'⟩
  rw [hdrain] at hdrains hcontinuing
  obtain ⟨os, hruns, hresults, hdues⟩ := hdrains
  obtain ⟨log, hlog⟩ := drain_eq hl hdrain
  rw [hlog]
  refine ⟨os, { t with buffer := r'.buffer }, ?_⟩
  exact {
    toSameStream := ⟨rfl, rfl, rfl, rfl, id⟩
    link := rfl
    reads := rfl
    lasting := List.forall_mem_nil _
    runs := hruns
    queue := by rw [hresults, List.nil_append]
    output := by
      refine ⟨0, (List.append_nil _).symm, fun before => ?_⟩
      rw [owed, owed, hpending, hdues, hresults, List.length_append, Nat.add_assoc]
      rfl
    written := Moves.written_of_silent rfl rfl
    owing := fun _ => hcontinuing
    settings := ⟨rfl, rfl, rfl⟩ }

/-! ## Waiting -/

/-- How a read ends when more bytes are needed. -/
inductive Fills (E : Endpoint γ υ δ ω) (c : Connection γ υ δ) (t : Transport) :
    Except Error Bool × Connection γ υ δ → Prop
  /-- There are more bytes, or reading can go on. -/
  | read {r : Read} {c' : Connection γ υ δ} {t' : Transport} (hmoves : Moves E c t [] [r] [] c' t')
    (hpending : c'.goAheadPending = c.goAheadPending) : Fills E c t (.ok true, c')
  /-- Nothing can be read now. -/
  | blocked {rs : List Read} {c' : Connection γ υ δ} {t' : Transport}
    (hmoves : Moves E c t [] rs [] c' t') (hpending : c'.goAheadPending = c.goAheadPending)
    (hstarved : Starved E c' t') (hblocked : t'.Blocked rs) :
    Fills E c t (if c.idle then .ok false else .error .timeout, c')
  /-- Nothing will ever be read again. -/
  | ended {e : Error} {c' : Connection γ υ δ} (hends : t.Ends) (he : e.isEnd) (hshut : c'.Shut)
    (houtput : c'.output = c.output) : Fills E c t (.error e, c')

/-- Without a stream there is nothing to read. -/
theorem fill_of_stream_none (hl : c.link = .connected t) (hs : t.stream = none) :
    Fills E c t (c.fill E) := by
  have hfill : t.fill = (.error .transportClosed, t) := by rw [Transport.fill, hs]
  have hends : t.Ends :=
    .inl ⟨by rw [Transport.reads, hs]; rfl, by rw [Transport.staysOpen, hs]; rfl⟩
  obtain ⟨hshut, houtput⟩ :=
    shut_close E ({ c with link := .connected t }.warn "Read failed: transport closed")
  rw [fill, hl]
  simp only [hfill]
  exact .ended hends rfl hshut houtput

/-- A receiver that can do nothing with what is there reads once, and the read ends in one of these
ways, whatever the stream gives. -/
theorem fills (hl : c.link = .connected t) (hstarved : Starved E c t) :
    Fills E c t (c.fill E) := by
  rcases hs : t.stream with _ | s
  · exact fill_of_stream_none hl hs
  rw [fill, hl]
  simp only
  rcases hreads : t.reads with _ | ⟨r, rs⟩
  · rw [Transport.fill_of_reads_nil hs hreads]
    cases hopen : t.staysOpen with
    | false =>
      obtain ⟨hshut, houtput⟩ :=
        shut_close E ({ c with link := .connected t }.info "EOF from peer")
      exact .ended (.inl ⟨hreads, hopen⟩) rfl hshut houtput
    | true =>
      have hc : { c with link := .connected t } = c := by rw [← hl]
      show Fills E c t
        (if c.idle then .ok false else .error .timeout, { c with link := .connected t })
      rw [hc]
      exact .blocked (.refl hl) rfl hstarved (.inr ⟨hreads, hopen⟩)
  · obtain ⟨t', hfill, hafter⟩ := Transport.fill_of_reads_cons hreads
    have hread : r.lasts → Moves E c t [] [r] [] { c with link := .connected t' } t' :=
      fun hlasts => .of_read hstarved hreads hlasts hafter
    rw [hfill]
    cases r with
    | ok d =>
      by_cases hd : d = []
      · subst hd
        obtain ⟨hshut, houtput⟩ :=
          shut_close E ({ c with link := .connected t' }.info "EOF from peer")
        exact .ended (.inr ⟨_, _, hreads, by simp [Read.lasts]⟩) rfl hshut houtput
      · have hlen : d.length ≠ 0 := by simpa using hd
        simp only [Except.map, if_neg hlen]
        exact .read (hread (by simpa [Read.lasts] using hd)) rfl
    | error e =>
      simp only [Except.map]
      by_cases hinterrupted : e.kind = .interrupted
      · rw [if_pos hinterrupted]
        exact .read (hread (by simp [Read.lasts, StreamError.passes, hinterrupted])) rfl
      · rw [if_neg hinterrupted]
        by_cases hblock : e.isWouldBlock
        · rw [if_pos hblock]
          have hmoves := hread (by simp [Read.lasts, StreamError.passes, hblock])
          have hsame : t'.buffer = t.buffer := by
            rw [hafter.buffer]
            exact List.append_nil _
          exact .blocked hmoves rfl (hstarved.of_eq rfl hsame) (.inl ⟨e, rfl, hblock⟩)
        · rw [if_neg hblock]
          obtain ⟨hshut, houtput⟩ :=
            shut_close E ({ c with link := .connected t' }.warn ("Read failed: " ++ e.text))
          refine .ended (.inr ⟨_, _, hreads, ?_⟩) rfl hshut houtput
          simpa [Read.lasts, StreamError.passes, hinterrupted] using hblock

/-- How waiting for a result ends. -/
inductive Stops (E : Endpoint γ υ δ ω) (c : Connection γ υ δ) (t : Transport) :
    Polled γ υ δ → Prop
  /-- There is a result. -/
  | result {result : Except Malformed υ} {rs : List Read} {os : List (Reported υ)}
    {c' : Connection γ υ δ} {t' : Transport}
    (hmoves : Moves E c t [] rs os { c' with queue := c'.queue ++ [result] } t')
    (hpending : c'.goAheadPending = false) : Stops E c t (.ok (some result), c')
  /-- Nothing can be read now. -/
  | blocked {rs : List Read} {os : List (Reported υ)} {c' : Connection γ υ δ} {t' : Transport}
    (hmoves : Moves E c t [] rs os c' t') (hpending : c'.goAheadPending = false)
    (hresults : Reported.results os = []) (hstarved : Starved E c' t') (hblocked : t'.Blocked rs) :
    Stops E c t (if c.idle then .ok none else .error .timeout, c')
  /-- Nothing will ever be read again. -/
  | ended {e : Error} {rs : List Read} {os : List (Reported υ)} {c₁ c' : Connection γ υ δ}
    {t₁ : Transport} (hmoves : Moves E c t [] rs os c₁ t₁) (hpending : c₁.goAheadPending = false)
    (hresults : Reported.results os = []) (hstarved : Starved E c₁ t₁) (hends : t₁.Ends)
    (he : e.isEnd) (hshut : c'.Shut) (houtput : c'.output = c₁.output) : Stops E c t (.error e, c')
  /-- A literal cannot be asked for. -/
  | broken {b : Polled γ υ δ} (hbroken : Broken E c t b) : Stops E c t b

/-- What is still awaited after a move is what is awaited. -/
theorem Stops.of_moves {c' : Connection γ υ δ} {t' : Transport} {rs : List Read}
    {os : List (Reported υ)} {b : Polled γ υ δ} (hmoves : Moves E c t [] rs os c' t')
    (hresults : Reported.results os = []) (h : Stops E c' t' b) : Stops E c t b := by
  cases h with
  | result hmoves' hpending => exact .result (hmoves.trans hmoves') hpending
  | blocked hmoves' hpending hresults' hstarved hblocked =>
    rw [hmoves.settings.idle]
    refine .blocked (hmoves.trans hmoves') hpending ?_ hstarved ?_
    · rw [Reported.results_append, hresults, hresults']
      rfl
    · rcases hblocked with ⟨e, hlast, he⟩ | hnil
      · exact .inl ⟨e, by rw [List.getLast?_append, hlast]; rfl, he⟩
      · exact .inr hnil
  | ended hmoves' hpending hresults' hstarved hends he hshut houtput =>
    refine .ended (hmoves.trans hmoves') hpending ?_ hstarved hends he hshut houtput
    rw [Reported.results_append, hresults, hresults']
    rfl
  | broken hbroken => exact .broken (hbroken.of_moves hmoves hresults)

/-- One step of waiting leads on or ends it. -/
theorem poll_cases (hl : c.link = .connected t) (hqueue : c.queue = [])
    (hpending : c.goAheadPending = false) :
    (∃ c' t' rs os, c.poll E = .inl c' ∧ Moves E c t [] rs os c' t' ∧ Reported.results os = []
        ∧ c'.goAheadPending = false)
      ∨ ∃ b, c.poll E = .inr b ∧ Stops E c t b := by
  rcases hrec : c.receiver.receive E.grammar t with ⟨o, r', t'⟩
  rw [poll, hl]
  simp only [hrec]
  obtain report | ⟨unit⟩ | n | ⟨missing, goAhead⟩ := o
  · right
    refine ⟨_, rfl, .result (.of_receive hrec (by simp) hpending rfl rfl rfl hpending rfl
      ⟨rfl, rfl, rfl⟩) hpending⟩
  · right
    refine ⟨_, rfl, .result (.of_receive hrec (by simp) hpending rfl rfl rfl hpending rfl
      ⟨rfl, rfl, rfl⟩) hpending⟩
  · obtain ⟨hmoves, hstarved⟩ := Moves.of_needMore hrec hpending
    have hfills := fills hmoves.link hstarved
    simp only
    generalize hfill : fill E _ = b at hfills ⊢
    cases hfills with
    | read hmoves' hpending' =>
      left
      exact ⟨_, _, _, _, rfl, hmoves.trans hmoves', rfl, hpending'.trans hpending⟩
    | blocked hmoves' hpending' hstarved' hblocked =>
      right
      have hstops := Stops.blocked (hmoves.trans hmoves') (hpending'.trans hpending) rfl hstarved'
        hblocked
      cases hidle : c.idle <;> rw [hidle] at hstops <;> exact ⟨_, rfl, hstops⟩
    | ended hends he hshut houtput =>
      right
      exact ⟨_, rfl, .ended hmoves hpending rfl hstarved hends he hshut houtput⟩
  · cases goAhead with
    | false =>
      left
      exact ⟨_, _, _, _, rfl, .of_receive hrec (by simp) hpending rfl rfl
        (List.append_nil _).symm hpending rfl ⟨rfl, rfl, rfl⟩, rfl, hpending⟩
    | true =>
      -- the request is owed as soon as the literal is announced, and made at once
      have howes : Moves E c t [] [] [.ok (.continuing missing true)]
          { c with receiver := r', link := .connected t', goAheadPending := true } t' :=
        .of_receive hrec (by simp) hpending rfl rfl (List.append_nil _).symm rfl rfl
          ⟨rfl, rfl, rfl⟩
      rcases sendGoAhead_cases (E := E)
        (c := { c with receiver := r', link := .connected t' }) (t := t') rfl with
        ⟨t'', hgo, hwritten⟩ | ⟨request, e, c', hrequest, hgo, hbreaks⟩
      · left
        simp only [hgo]
        exact ⟨_, t'', _, _, rfl, howes.trans (.of_request hwritten hqueue rfl rfl rfl
          hqueue hpending rfl ⟨rfl, rfl, rfl⟩), rfl, hpending⟩
      · right
        simp only [hgo]
        exact ⟨_, rfl, .broken (.intro howes rfl rfl hrequest
          ⟨hbreaks.fails, hbreaks.shut, hbreaks.output⟩)⟩

/-- Waiting ends. -/
theorem wait_cases (hl : c.link = .connected t) (hqueue : c.queue = [])
    (hpending : c.goAheadPending = false) : Stops E c t (c.wait E) := by
  refine iterate_induction
    (P := fun a => ∃ t' rs os, Moves E c t [] rs os a t' ∧ Reported.results os = []
      ∧ a.goAheadPending = false)
    (Q := fun b => Stops E c t b) ?_ ?_ c ⟨t, [], [], .refl hl, rfl, hpending⟩
  all_goals
    rintro a b ⟨t', rs, os, hmoves, hresults, hpending'⟩ hpoll
    have hqueue' : a.queue = [] := by
      have := hmoves.queue
      rw [hqueue, hresults] at this
      exact this.symm
    rcases poll_cases (E := E) hmoves.link hqueue' hpending' with
      ⟨a', t'', rs', os', hstep, hmoves', hresults', hpending''⟩ | ⟨b', hstep, hstops⟩
    all_goals
      rw [hpoll] at hstep
      cases hstep
  · refine ⟨t'', _, _, hmoves.trans hmoves', ?_, hpending''⟩
    rw [Reported.results_append, hresults, hresults']
    rfl
  · exact hstops.of_moves hmoves hresults

/-! ## Receiving -/

/-- What a call of `Connection.receive` does, if no request fails to be written. -/
inductive Received (E : Endpoint γ υ δ ω) (c : Connection γ υ δ) (t : Transport) :
    Except Error (Option υ) × Connection γ υ δ → Prop
  /-- A result is handed out. -/
  | handed {result : Except Malformed υ} {rs : List Read} {os : List (Reported υ)}
    {c' : Connection γ υ δ} {t' : Transport} (hmoves : Moves E c t [result] rs os c' t') :
    Received E c t (handed result, c')
  /-- Nothing can be read now. -/
  | blocked {rs : List Read} {os : List (Reported υ)} {c' : Connection γ υ δ} {t' : Transport}
    (hmoves : Moves E c t [] rs os c' t') (hpending : c'.goAheadPending = false)
    (hqueue : c'.queue = []) (hstarved : Starved E c' t') (hblocked : t'.Blocked rs) :
    Received E c t (if c.idle then .ok none else .error .timeout, c')
  /-- Nothing will ever be read again. -/
  | ended {e : Error} {rs : List Read} {os : List (Reported υ)} {c₁ c' : Connection γ υ δ}
    {t₁ : Transport} (hmoves : Moves E c t [] rs os c₁ t₁) (hpending : c₁.goAheadPending = false)
    (hqueue : c₁.queue = []) (hstarved : Starved E c₁ t₁) (hends : t₁.Ends) (he : e.isEnd)
    (hshut : c'.Shut) (houtput : c'.output = c₁.output) : Received E c t (.error e, c')

theorem takeQueued_of_cons {result : Except Malformed υ} {rest : List (Except Malformed υ)}
    (hqueue : c.queue = result :: rest) :
    c.takeQueued = (handed result, { c with queue := rest }) := by
  rw [takeQueued, hqueue]
  cases result <;> rfl

/-- Every call of a connection that is open does one of these, or fails to ask for a literal. -/
theorem receive_cases (hl : c.link = .connected t) :
    Received E c t (c.receive E) ∨ Broken E c t (c.receive E) := by
  rw [receive]
  rcases hqueue : c.queue with _ | ⟨result, rest⟩
  · have hopen : c.openError? = none := by rw [openError?, hl]
    simp only [hopen, List.isEmpty_nil, Bool.not_true, Bool.false_eq_true, if_false]
    rcases settleGoAhead_cases (E := E) hl hqueue with
      ⟨c₁, t₁, hsettle, hmoves, hpending, hqueue₁⟩ | ⟨e, c₁, hsettle, hbroken⟩
    · have hempty : ∀ {rs os c' t'}, Moves E c₁ t₁ [] rs os c' t' → Reported.results os = [] →
          c'.queue = [] := by
        intro rs os c' t' h hresults
        have := h.queue
        rw [hqueue₁, hresults] at this
        exact this.symm
      have hstops := wait_cases (E := E) hmoves.link hqueue₁ hpending
      simp only [hsettle, fetch]
      generalize c₁.wait E = b at hstops ⊢
      cases hstops with
      | @result result rs os c' t' hmoves' hpending' =>
        -- the result goes through the queue, before those that are there already
        obtain ⟨os', t'', hdrain⟩ := drain_moves (E := E) hmoves'.link hpending'
        simp only
        generalize drain E _ = c'' at hdrain ⊢
        have hmore := hdrain.queue
        rw [List.append_assoc, List.singleton_append, List.nil_append] at hmore
        have hne : c''.queue ≠ [] := by
          rw [← hmore]
          exact List.append_ne_nil_of_right_ne_nil _ (List.cons_ne_nil _ _)
        obtain ⟨first, rest, hcons⟩ := List.exists_cons_of_ne_nil hne
        rw [takeQueued_of_cons hcons]
        have htake := Moves.of_queue (E := E) hdrain.link hcons
        exact .inl (.handed (hmoves.trans (hmoves'.trans (hdrain.trans htake))))
      | blocked hmoves' hpending' hresults hstarved hblocked =>
        have hqueue' := hempty hmoves' hresults
        have hreceived :=
          Received.blocked (hmoves.trans hmoves') hpending' hqueue' hstarved hblocked
        rw [hmoves.settings.idle]
        left
        cases hidle : c.idle <;> rw [hidle] at hreceived <;> exact hreceived
      | ended hmoves' hpending' hresults hstarved hends he hshut houtput =>
        have hqueue₂ := hempty hmoves' hresults
        exact .inl (.ended (hmoves.trans hmoves') hpending' hqueue₂ hstarved hends he hshut houtput)
      | broken hbroken =>
        right
        obtain ⟨hmoves', hresults, hpending', hrequest, hbreaks⟩ := hbroken
        exact .of_moves hmoves rfl (.intro hmoves' hresults hpending' hrequest hbreaks)
    · simp only [hsettle]
      exact .inr hbroken
  · simp only [List.isEmpty_cons, Bool.not_false, if_true]
    rw [takeQueued_of_cons hqueue]
    exact .inl (.handed (.of_queue hl hqueue))

/-- After a call the connection has gone on and is open, or it is closed. -/
theorem moves_or_shut (hl : c.link = .connected t) :
    (∃ given rs os t', Moves E c t given rs os (c.receive E).2 t') ∨ (c.receive E).2.Shut := by
  rcases receive_cases (E := E) hl with h | h
  · generalize c.receive E = b at h
    cases h with
    | handed hmoves | blocked hmoves => exact .inl ⟨_, _, _, _, hmoves⟩
    | ended _ _ _ _ _ _ hshut => exact .inr hshut
  · generalize c.receive E = b at h
    obtain ⟨-, -, -, -, hbreaks⟩ := h
    exact .inr hbreaks.shut

/-- If no write and no flush fails, then no request fails to be written. -/
theorem received (hl : c.link = .connected t) (hw : t.Writable) : Received E c t (c.receive E) :=
  (receive_cases hl).resolve_right fun hbroken => hbroken.not_writable hw

end Connection

end MailProtocol
