import MailProtocol.Proofs.Connection.Moves

/-!
# Sessions

A session is a connection with a record of its use: what has been read and what is still to come,
what has been returned, and what receiving has written. `Session.run` is any row of calls of the
connection's user.

`Session.Live` is the invariant of an open connection: the results that have been returned, followed
by those in the queue, are the results that a bare receiver has reported from what has been read,
and the peer has been asked for every literal that it waits to send, save perhaps the last one.
-/

namespace MailProtocol

variable {γ υ δ ω : Type}

/-- A call of a connection's user. -/
inductive Call (ω : Type) where
  | receive
  | setIdle (idle : Bool)
  | send (unit : ω)
  | sendContinuation
  | upgrade (handshake : Stream → Except Error Stream)

namespace Call

/-- A new stream, if the call brings one, can be written to. -/
def Safe : Call ω → Prop
  | upgrade handshake => ∀ stream stream', handshake stream = .ok stream' → stream'.Writable
  | receive | setIdle _ | send _ | sendContinuation => True

/-- The call does not fail to bring a new stream. -/
def Sure : Call ω → Prop
  | upgrade handshake => ∀ stream, ∃ stream', handshake stream = .ok stream'
  | receive | setIdle _ | send _ | sendContinuation => True

end Call

namespace Connection

/-- What reading the stream again and again will give, while there is a stream. -/
def reads (c : Connection γ υ δ) : List Read := (c.link.transport?.map Transport.reads).getD []

/-- A connection before it has a stream, with the state `g` of its grammar. -/
structure Fresh (c : Connection γ υ δ) (g : γ) : Prop where
  link : c.link = .unconnected
  receiver : c.receiver = { state := g }
  queue : c.queue = []
  goAheadPending : c.goAheadPending = false

/-- The result that a call of `Connection.receive` returns. -/
def returned? : Except Error (Option υ) → Option (Except Malformed υ)
  | .ok (some unit) => some (.ok unit)
  | .error (.malformed report) => some (.error report)
  | .ok none | .error _ => none

/-- Replacing the stream is refused, or done, or closes the connection. -/
theorem upgrade_cases (E : Endpoint γ υ δ ω) {c : Connection γ υ δ} {t : Transport}
    {stream : Stream} (hl : c.link = .connected t) (hstream : t.stream = some stream)
    (handshake : Stream → Except Error Stream) :
    t.upgraded ∧ c.upgrade E handshake = (.error .alreadyUpgraded, c)
      ∨ t.upgraded = false
        ∧ ((∃ stream' label log, handshake stream = .ok stream'
            ∧ c.upgrade E handshake = (.ok (), { c with
              link := .connected { t with stream := some stream', upgraded := true }
              label, log }))
          ∨ ∃ e c', handshake stream = .error e ∧ c.upgrade E handshake = (.error e, c')
            ∧ c'.Shut ∧ c'.output = c.output) := by
  rw [upgrade, hl]
  simp only
  split
  · next hupgraded => exact .inl ⟨hupgraded, rfl⟩
  · next hupgraded =>
    refine .inr ⟨Bool.not_eq_true _ ▸ hupgraded, ?_⟩
    rw [Transport.upgrade, if_neg hupgraded, hstream]
    simp only
    cases hshake : handshake stream with
    | ok stream' =>
      left
      exact ⟨stream', _, _, rfl, rfl⟩
    | error e =>
      right
      obtain ⟨hshut, houtput⟩ := shut_close E
        ({ c with link := .connected { t with stream := none } }.warn
          ("Stream upgrade failed: " ++ e.message))
      exact ⟨e, _, rfl, rfl, hshut, houtput⟩

theorem returned?_handed (result : Except Malformed υ) :
    returned? (handed result) = some result := by
  cases result <;> rfl

/-- A unit is returned as a unit. -/
theorem eq_of_returned? {result : Except Error (Option υ)} {unit : υ}
    (h : returned? result = some (.ok unit)) : result = .ok (some unit) := by
  rcases result with (_ | _) | (_ | _) <;> cases h
  rfl

end Connection

/-- A connection and a record of its use. -/
structure Session (γ υ δ : Type) where
  connection : Connection γ υ δ
  /-- What has been read and what is still to come, read by read. -/
  input : List Read
  /-- What has been returned. -/
  returned : List (Except Malformed υ) := []
  /-- What receiving has written, and how many results had been returned before. -/
  requests : List (Bytes × Nat) := []

namespace Session

variable (E : Endpoint γ υ δ ω)

/-- The connection is attached to a stream. -/
def start (c : Connection γ υ δ) (stream : Stream) : Session γ υ δ :=
  let c := (c.attach stream none).2
  { connection := c, input := c.reads }

/-- The reads that have been made. -/
def done (s : Session γ υ δ) : List Read :=
  s.input.take (s.input.length - s.connection.reads.length)

/-- The session after a call. -/
def perform (s : Session γ υ δ) : Call ω → Session γ υ δ
  | .receive =>
    let (result, c) := s.connection.receive E
    { s with
      connection := c
      returned := s.returned ++ (Connection.returned? result).toList
      requests := s.requests ++
        (c.output.drop s.connection.output.length).map (·, s.returned.length) }
  | .setIdle idle => { s with connection := { s.connection with idle } }
  | .send unit => { s with connection := (s.connection.send E unit).2 }
  | .sendContinuation => { s with connection := (s.connection.sendContinuation E).2 }
  | .upgrade handshake =>
    let c := (s.connection.upgrade E handshake).2
    -- what has been read stays, and the new stream takes the place of what was still to come
    { s with connection := c, input := s.done ++ c.reads }

/-- The session after these calls. -/
def run (s : Session γ υ δ) (calls : List (Call ω)) : Session γ υ δ := calls.foldl (perform E) s

end Session

/-! ## The invariant of an open connection -/

/-- What is written to ask for literals, with so many results before each. -/
def Endpoint.asked (E : Endpoint γ υ δ ω) (dues : List Nat) : List (Bytes × Nat) :=
  dues.flatMap fun before => (E.requests 1).map (·, before)

namespace Endpoint

variable (E : Endpoint γ υ δ ω)

theorem asked_append (dues dues' : List Nat) :
    E.asked (dues ++ dues') = E.asked dues ++ E.asked dues' := List.flatMap_append

theorem asked_replicate (count before : Nat) :
    E.asked (List.replicate count before) = (E.requests count).map (·, before) := by
  induction count with
  | zero => rfl
  | succ count ih =>
    rw [List.replicate_succ, ← List.singleton_append, asked_append, ih, Nat.add_comm, requests_add,
      List.map_append, asked, List.flatMap_singleton]

end Endpoint

namespace Session

variable {E : Endpoint γ υ δ ω} {g : γ} {chunk : Nat} {s s' : Session γ υ δ} {t t' : Transport}
  {done : List Read} {past : List (Reported υ)}

/-- The connection is open over `t`. The reads `done` have been made, and a receiver that begins
afresh reports `past` from them. -/
structure Live (E : Endpoint γ υ δ ω) (g : γ) (chunk : Nat) (s : Session γ υ δ) (t : Transport)
    (done : List Read) (past : List (Reported υ)) : Prop where
  link : s.connection.link = .connected t
  writable : t.Writable
  chunkSize : t.chunkSize = chunk
  input : s.input = done ++ t.reads
  lasting : ∀ r ∈ done, r.lasts
  fit : ∀ d, .ok d ∈ done → d.length ≤ max chunk 1
  runs : Reception.Runs E.grammar { state := g, buffer := [] } (Read.pieces done) past
    (s.connection.receiver.reception t)
  results : Reported.results past = s.returned ++ s.connection.queue
  requests : ∃ dues, s.requests = E.asked dues
    ∧ dues ++ s.connection.owed (s.returned ++ s.connection.queue).length = Reported.dues 0 past

namespace Live

theorem reads_eq (h : Live E g chunk s t done past) : s.connection.reads = t.reads := by
  rw [Connection.reads, h.link]
  rfl

theorem done_eq (h : Live E g chunk s t done past) : s.done = done := by
  rw [Session.done, h.reads_eq, h.input, List.length_append, Nat.add_sub_cancel, List.take_left]

theorem fit_input (h : Live E g chunk s t done past) (d : Bytes) (hd : .ok d ∈ s.input) :
    d.length ≤ max chunk 1 := by
  rw [h.input, List.mem_append] at hd
  rcases hd with hd | hd
  · exact h.fit d hd
  · rw [← h.chunkSize]
    exact Transport.length_le_of_mem_reads hd

theorem pieces_input (h : Live E g chunk s t done past) :
    Read.pieces s.input = Read.pieces done ++ Read.pieces t.reads := by
  rw [h.input, Read.pieces_append h.lasting]

/-- A new connection that gets a stream. -/
theorem start {c : Connection γ υ δ} (hc : c.Fresh g) {stream : Stream} (hw : stream.Writable) :
    ∃ t, Live E g c.chunkSize (.start c stream) t [] [] := by
  have hattach : (c.attach stream none).2
      = { c with link := .connected (.ofStream stream c.chunkSize) }.info "Connected" := by
    rw [Connection.attach, Connection.attachError?, hc.link]
  refine ⟨.ofStream stream c.chunkSize, ?_⟩
  rw [Session.start, hattach]
  exact {
    link := rfl
    writable := ⟨stream, rfl, hw⟩
    chunkSize := rfl
    input := rfl
    lasting := List.forall_mem_nil _
    fit := by simp
    runs := by
      show Reception.Runs _ _ _ _ (c.receiver.reception _)
      rw [hc.receiver]
      exact .start
    results := hc.queue.symm
    requests := ⟨[], rfl, by simp [Connection.owed, Connection.info, Connection.note,
      hc.goAheadPending, Reported.dues]⟩ }

/-- Receiving keeps the record. -/
theorem of_moves (h : Live E g chunk s t done past) {given : List (Except Malformed υ)}
    {rs : List Read} {os : List (Reported υ)} {c' : Connection γ υ δ}
    (hmoves : s.connection.Moves E t given rs os c' t') (hs' : s' = { s with
      connection := c'
      returned := s.returned ++ given
      requests := s.requests ++
        (c'.output.drop s.connection.output.length).map (·, s.returned.length) }) :
    Live E g chunk s' t' (done ++ rs) (past ++ os) := by
  subst hs'
  have hqueue : s.returned ++ given ++ c'.queue
      = s.returned ++ s.connection.queue ++ Reported.results os := by
    rw [List.append_assoc, ← hmoves.queue, List.append_assoc]
  exact {
    link := hmoves.link
    writable := hmoves.writable h.writable
    chunkSize := hmoves.chunkSize.trans h.chunkSize
    input := by rw [h.input, hmoves.reads, List.append_assoc]
    lasting := List.forall_mem_append.2 ⟨h.lasting, hmoves.lasting⟩
    fit := by
      intro d hd
      rcases List.mem_append.1 hd with hd | hd
      · exact h.fit d hd
      · rw [← h.chunkSize]
        refine Transport.length_le_of_mem_reads ?_
        rw [hmoves.reads]
        exact List.mem_append_left _ hd
    runs := by
      rw [Read.pieces_append h.lasting]
      exact h.runs.trans hmoves.runs
    results := by rw [Reported.results_append, h.results, hqueue]
    requests := by
      obtain ⟨dues, hdues, howed⟩ := h.requests
      obtain ⟨k, houtput, hk⟩ := hmoves.output
      refine ⟨dues ++ List.replicate k s.returned.length, ?_, ?_⟩
      · rw [houtput, List.drop_left, hdues, E.asked_append, E.asked_replicate]
      · have hk := hk s.returned.length
        rw [hqueue, List.append_assoc, List.length_append, List.length_append, Nat.add_assoc,
          ← List.length_append, hk, ← List.append_assoc, ← List.length_append, howed,
          Reported.dues_append, h.results, Nat.zero_add] }

/-- What has nothing to do with receiving keeps the record. The stream may be another one, as long
as what has been read stays. -/
theorem of_transport (h : Live E g chunk s t done past) (hw : t'.Writable)
    (hchunk : t'.chunkSize = t.chunkSize) (hbuffer : t'.buffer = t.buffer)
    {c' : Connection γ υ δ} (hlink : c'.link = .connected t')
    (hreceiver : c'.receiver = s.connection.receiver) (hqueue : c'.queue = s.connection.queue)
    (hpending : c'.goAheadPending = s.connection.goAheadPending) :
    Live E g chunk { s with connection := c', input := done ++ t'.reads } t' done past where
  link := hlink
  writable := hw
  chunkSize := hchunk.trans h.chunkSize
  input := rfl
  lasting := h.lasting
  fit := h.fit
  runs := by
    rw [hreceiver, Receiver.reception, hbuffer]
    exact h.runs
  results := by rw [hqueue, h.results]
  requests := by
    rw [Connection.owed, hpending, hqueue]
    exact h.requests

/-- Writing keeps the record. -/
theorem of_source (h : Live E g chunk s t done past) (hsource : t.SameSource t')
    (hbuffer : t'.buffer = t.buffer) {c' : Connection γ υ δ} (hlink : c'.link = .connected t')
    (hreceiver : c'.receiver = s.connection.receiver) (hqueue : c'.queue = s.connection.queue)
    (hpending : c'.goAheadPending = s.connection.goAheadPending) :
    Live E g chunk { s with connection := c' } t' done past := by
  have := h.of_transport (hsource.writable h.writable) hsource.chunkSize hbuffer hlink hreceiver
    hqueue hpending
  rwa [hsource.reads, ← h.input] at this

theorem setIdle (h : Live E g chunk s t done past) (idle : Bool) :
    Live E g chunk (s.perform E (.setIdle idle)) t done past :=
  h.of_source (.refl t) rfl h.link rfl rfl rfl

theorem openError?_eq (h : Live E g chunk s t done past) : s.connection.openError? = none := by
  rw [Connection.openError?, h.link]

theorem send (h : Live E g chunk s t done past) (unit : ω) :
    ∃ t', Live E g chunk (s.perform E (.send unit)) t' done past := by
  rw [perform, Connection.send, h.openError?_eq]
  simp only
  split
  · exact ⟨t, h⟩
  · obtain ⟨t', hsegment, hsource, hbuffer⟩ :=
      Connection.sendSegment_eq E h.link h.writable (E.write s.connection.writer unit).first
        (E.write s.connection.writer unit).rest
    rw [hsegment]
    exact ⟨t', h.of_source hsource hbuffer rfl rfl rfl rfl⟩

theorem sendContinuation (h : Live E g chunk s t done past) :
    ∃ t', Live E g chunk (s.perform E .sendContinuation) t' done past := by
  rw [perform, Connection.sendContinuation, h.openError?_eq]
  simp only
  split
  · exact ⟨t, h⟩
  · next segment pending hpending =>
    obtain ⟨t', hsegment, hsource, hbuffer⟩ :=
      Connection.sendSegment_eq E h.link h.writable segment pending
    rw [hsegment]
    exact ⟨t', h.of_source hsource hbuffer rfl rfl rfl rfl⟩

end Live

/-! ## The end of a connection -/

/-- What a receiver that begins afresh reports from all that is read before the end. -/
def heard (E : Endpoint γ υ δ ω) (g : γ) (s : Session γ υ δ) : List (Reported υ) :=
  Reception.feed E.lawful { state := g, buffer := [] } (Read.pieces s.input)

/-- The connection is closed, and some first results have been returned. -/
structure Closed (E : Endpoint γ υ δ ω) (g : γ) (chunk : Nat) (s : Session γ υ δ) : Prop where
  link : s.connection.link = .closed
  queue : s.connection.queue = []
  fit : ∀ d, .ok d ∈ s.input → d.length ≤ max chunk 1
  returned : s.returned <+: Reported.results (s.heard E g)

/-- The connection came to its end: all results have been returned, and all literals that the peer
waited to send have been asked for. -/
structure Ended (E : Endpoint γ υ δ ω) (g : γ) (chunk : Nat) (s : Session γ υ δ) : Prop where
  link : s.connection.link = .closed
  queue : s.connection.queue = []
  fit : ∀ d, .ok d ∈ s.input → d.length ≤ max chunk 1
  returned : s.returned = Reported.results (s.heard E g)
  requests : s.requests = E.asked (Reported.dues 0 (s.heard E g))

theorem Ended.closed (h : Ended E g chunk s) : Closed E g chunk s :=
  ⟨h.link, h.queue, h.fit, h.returned ▸ List.prefix_rfl⟩

/-- Once a connection is closed, no call changes the record. -/
theorem perform_of_closed (hlink : s.connection.link = .closed) (hqueue : s.connection.queue = [])
    (call : Call ω) :
    ∃ c, s.perform E call = { s with connection := c } ∧ c.link = .closed ∧ c.queue = [] := by
  have hopen : s.connection.openError? = some .closed := by rw [Connection.openError?, hlink]
  cases call with
  | receive =>
    have hreceive : s.connection.receive E = (.error .closed, s.connection) := by
      rw [Connection.receive, hqueue, hopen]
      rfl
    refine ⟨s.connection, ?_, hlink, hqueue⟩
    rw [perform, hreceive]
    simp [Connection.returned?]
  | setIdle idle => exact ⟨_, rfl, hlink, hqueue⟩
  | send unit =>
    refine ⟨s.connection, ?_, hlink, hqueue⟩
    rw [perform, Connection.send, hopen]
  | sendContinuation =>
    refine ⟨s.connection, ?_, hlink, hqueue⟩
    rw [perform, Connection.sendContinuation, hopen]
  | upgrade handshake =>
    have hupgrade : s.connection.upgrade E handshake = (.error .closed, s.connection) := by
      rw [Connection.upgrade, hlink]
    have hreads : s.connection.reads = [] := by
      rw [Connection.reads, hlink]
      rfl
    refine ⟨s.connection, ?_, hlink, hqueue⟩
    rw [perform, hupgrade]
    simp [Session.done, hreads]

namespace Live

/-- The results that have been returned are the first ones of all that are read before the end. -/
theorem prefix_heard (h : Live E g chunk s t done past) : past <+: s.heard E g := by
  rw [heard, h.pieces_input]
  exact (h.runs.reaches E.lawful).prefix_feed _

theorem returned_prefix (h : Live E g chunk s t done past) :
    s.returned <+: Reported.results (s.heard E g) := by
  have hresults : s.returned <+: Reported.results past := h.results ▸ List.prefix_append _ _
  exact hresults.trans (h.prefix_heard.filterMap _)

/-- A receiver that can do nothing with what is there has reported all that has been read. -/
theorem feed_eq (h : Live E g chunk s t done past) (hstarved : s.connection.Starved E t) :
    Reception.feed E.lawful { state := g, buffer := [] } (Read.pieces done) = past :=
  let ⟨_, hneed⟩ := hstarved
  (h.runs.reaches E.lawful).feed_eq hneed

/-- A call that hands nothing out keeps the record. -/
theorem of_nothing (h : Live E g chunk s t done past) {rs : List Read} {os : List (Reported υ)}
    {c' : Connection γ υ δ} (hmoves : s.connection.Moves E t [] rs os c' t')
    {result : Except Error (Option υ)} (hnone : Connection.returned? result = none)
    (hreceive : s.connection.receive E = (result, c')) :
    Live E g chunk (s.perform E (.receive : Call ω)) t' (done ++ rs) (past ++ os) := by
  refine h.of_moves hmoves ?_
  rw [Session.perform, hreceive]
  simp only [hnone]
  rfl

/-- When nothing more comes before the end, everything has been returned and asked for. -/
theorem of_end (h : Live E g chunk s t done past) (hqueue : s.connection.queue = [])
    (hpending : s.connection.goAheadPending = false) (hstarved : s.connection.Starved E t)
    (hpieces : Read.pieces t.reads = []) : s.returned = Reported.results (s.heard E g)
      ∧ s.requests = E.asked (Reported.dues 0 (s.heard E g)) := by
  have hheard : past = s.heard E g := by
    rw [heard, h.pieces_input, hpieces, List.append_nil, h.feed_eq hstarved]
  have hresults := h.results
  obtain ⟨dues, hrequests, howed⟩ := h.requests
  rw [hqueue, List.append_nil] at hresults
  rw [Connection.owed, hpending, if_neg Bool.false_ne_true, List.append_nil] at howed
  exact ⟨by rw [← hheard, hresults], by rw [← hheard, ← howed, hrequests]⟩

/-- A call that finds the end has returned everything before. -/
theorem of_ended (h : Live E g chunk s t done past) {e : Error} {rs : List Read}
    {os : List (Reported υ)} {c₁ c' : Connection γ υ δ} {t₁ : Transport}
    (hmoves : s.connection.Moves E t [] rs os c₁ t₁) (hpending : c₁.goAheadPending = false)
    (hqueue : c₁.queue = []) (hstarved : c₁.Starved E t₁) (hends : t₁.Ends) (he : e.isEnd)
    (hshut : c'.Shut) (houtput : c'.output = c₁.output)
    (hreceive : s.connection.receive E = (.error e, c')) :
    Ended E g chunk (s.perform E (.receive : Call ω))
      ∧ s.returned = Reported.results (s.heard E g) := by
  have hnone : Connection.returned? (υ := υ) (.error e) = none := by
    cases e <;> first | rfl | cases he
  have hlive := h.of_moves hmoves rfl
  have hpieces : Read.pieces t₁.reads = [] := by
    rcases hends with ⟨hnil, -⟩ | ⟨r, rs, hcons, hlasts⟩
    · rw [hnil, Read.pieces_nil]
    · rw [hcons, Read.pieces_of_not_lasts hlasts]
  obtain ⟨hreturned, hrequests⟩ := hlive.of_end hqueue hpending hstarved hpieces
  rw [Session.perform, hreceive]
  simp only [hnone, houtput]
  exact ⟨⟨hshut.link, hshut.queue, hlive.fit_input, hreturned, hrequests⟩,
    (List.append_nil s.returned).symm.trans hreturned⟩

/-- A call of receiving leaves the connection open, or finds its end. -/
theorem receive (h : Live E g chunk s t done past) :
    (∃ t' done' past', Live E g chunk (s.perform E (.receive : Call ω)) t' done' past')
      ∨ Ended E g chunk (s.perform E (.receive : Call ω)) := by
  have hreceived := Connection.received (E := E) h.link h.writable
  generalize hreceive : s.connection.receive E = b at hreceived
  cases hreceived with
  | handed hmoves =>
    left
    refine ⟨_, _, _, h.of_moves hmoves ?_⟩
    rw [Session.perform, hreceive]
    simp only [Connection.returned?_handed]
    rfl
  | blocked hmoves hpending hqueue hstarved hblocked =>
    left
    refine ⟨_, _, _, h.of_nothing hmoves ?_ hreceive⟩
    cases s.connection.idle <;> rfl
  | ended hmoves hpending hqueue hstarved hends he hshut houtput =>
    right
    exact (h.of_ended hmoves hpending hqueue hstarved hends he hshut houtput hreceive).1

/-- Replacing the stream keeps what has been read, unless it fails. -/
theorem upgrade (h : Live E g chunk s t done past) {handshake : Stream → Except Error Stream}
    (hsafe : ∀ stream stream', handshake stream = .ok stream' → stream'.Writable) :
    (∃ t', Live E g chunk (s.perform E (.upgrade handshake : Call ω)) t' done past)
      ∨ Closed E g chunk (s.perform E (.upgrade handshake : Call ω))
        ∧ ∃ stream e, handshake stream = .error e := by
  obtain ⟨stream, hstream, -⟩ := id h.writable
  rw [perform, h.done_eq]
  rcases Connection.upgrade_cases E h.link hstream handshake with
    ⟨-, heq⟩ | ⟨-, ⟨stream', label, log, hshake, heq⟩ | ⟨e, c', hshake, heq, hshut, -⟩⟩
  · left
    refine ⟨t, ?_⟩
    rw [heq, h.reads_eq]
    exact h.of_transport h.writable rfl rfl h.link rfl rfl rfl
  · left
    have hw : Transport.Writable { t with stream := some stream', upgraded := true } :=
      ⟨stream', rfl, hsafe stream stream' hshake⟩
    rw [heq]
    exact ⟨_, h.of_transport hw rfl rfl rfl rfl rfl rfl⟩
  · right
    have hresults : s.returned <+: Reported.results past := h.results ▸ List.prefix_append _ _
    have hreads : c'.reads = [] := by
      rw [Connection.reads, hshut.link]
      rfl
    rw [heq]
    refine ⟨⟨hshut.link, hshut.queue, ?_, ?_⟩, stream, e, hshake⟩
    · rw [hreads, List.append_nil]
      exact h.fit
    · simp only [heard, Read.pieces_append h.lasting]
      exact hresults.trans (((h.runs.reaches E.lawful).prefix_feed _).filterMap _)

/-- Every call keeps the record, unless it closes the connection. -/
theorem perform (h : Live E g chunk s t done past) {call : Call ω} (hcall : call.Safe) :
    (∃ t' done' past', Live E g chunk (s.perform E call) t' done' past')
      ∨ Ended E g chunk (s.perform E call) ∨ Closed E g chunk (s.perform E call) ∧ ¬call.Sure := by
  cases call with
  | receive => exact h.receive.imp id .inl
  | setIdle idle => exact .inl ⟨t, done, past, h.setIdle idle⟩
  | send unit =>
    obtain ⟨t', h'⟩ := h.send unit
    exact .inl ⟨t', done, past, h'⟩
  | sendContinuation =>
    obtain ⟨t', h'⟩ := h.sendContinuation
    exact .inl ⟨t', done, past, h'⟩
  | upgrade handshake =>
    rcases h.upgrade hcall with ⟨t', h'⟩ | ⟨h', stream, e, hshake⟩
    · exact .inl ⟨t', done, past, h'⟩
    · refine .inr (.inr ⟨h', fun hsure => ?_⟩)
      obtain ⟨stream', hok⟩ := hsure stream
      rw [hshake] at hok
      cases hok

end Live

/-! ## Any row of calls -/

/-- The connection is open or closed, and all is accounted for. -/
theorem run_standing (hs : (∃ t done past, Live E g chunk s t done past) ∨ Closed E g chunk s)
    {calls : List (Call ω)} (hcalls : ∀ call ∈ calls, call.Safe) :
    (∃ t done past, Live E g chunk (s.run E calls) t done past)
      ∨ Closed E g chunk (s.run E calls) := by
  induction calls generalizing s with
  | nil => exact hs
  | cons call calls ih =>
    rw [List.forall_mem_cons] at hcalls
    refine ih ?_ hcalls.2
    rcases hs with ⟨t, done, past, h⟩ | h
    · rcases h.perform hcalls.1 with h' | h' | ⟨h', -⟩
      · exact .inl h'
      · exact .inr h'.closed
      · exact .inr h'
    · obtain ⟨c, hc, hlink, hqueue⟩ := perform_of_closed (E := E) h.link h.queue call
      rw [hc]
      exact .inr ⟨hlink, hqueue, h.fit, h.returned⟩

/-- If no call fails to bring a new stream, then the connection is open or has come to its end. -/
theorem run_sure (hs : (∃ t done past, Live E g chunk s t done past) ∨ Ended E g chunk s)
    {calls : List (Call ω)} (hcalls : ∀ call ∈ calls, call.Safe ∧ call.Sure) :
    (∃ t done past, Live E g chunk (s.run E calls) t done past)
      ∨ Ended E g chunk (s.run E calls) := by
  induction calls generalizing s with
  | nil => exact hs
  | cons call calls ih =>
    rw [List.forall_mem_cons] at hcalls
    refine ih ?_ hcalls.2
    rcases hs with ⟨t, done, past, h⟩ | h
    · rcases h.perform hcalls.1.1 with h' | h' | ⟨-, hsure⟩
      · exact .inl h'
      · exact .inr h'
      · exact absurd hcalls.1.2 hsure
    · obtain ⟨c, hc, hlink, hqueue⟩ := perform_of_closed (E := E) h.link h.queue call
      rw [hc]
      exact .inr ⟨hlink, hqueue, h.fit, h.returned, h.requests⟩

end Session

end MailProtocol
