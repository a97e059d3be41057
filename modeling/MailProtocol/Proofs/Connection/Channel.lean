import MailProtocol.Proofs.Connection.GoAhead

/-!
# The end of a channel

A connection may read from a channel instead of a stream that is known beforehand: the stream stays
open, and what the other end has written arrives on it bit by bit (`Session.arrive`). `Session.Fed`
is the invariant of a connection at the end of a channel. It does not close, and sending does not
fail. When a call of receiving has found nothing, everything that arrived has been returned, and all
literals have been asked for (`Session.Fed.settled`). The connection is then spent
(`Connection.Spent`): until more arrives, receiving finds nothing and writes nothing.
-/

namespace MailProtocol

/-- The stream brings bytes, and does not end. -/
structure Transport.Steady (t : Transport) : Prop where
  staysOpen : t.staysOpen = true
  brings : ∀ r ∈ t.reads, ∃ d, d ≠ [] ∧ r = .ok d

/-- Bytes are read as bytes. -/
theorem ReadEvent.brings_of_mem_reads (n : Nat) {events : List ReadEvent}
    (h : ∀ e ∈ events, ∃ d, d ≠ [] ∧ e = data d) :
    ∀ r ∈ reads n events, ∃ d, d ≠ [] ∧ r = .ok d := by
  fun_induction reads n events with
  | case1 => exact List.forall_mem_nil _
  | case2 e events ih =>
    obtain ⟨d, -, hd⟩ := h _ List.mem_cons_self
    cases hd
  | case3 d events ih =>
    rw [List.forall_mem_cons] at h ⊢
    obtain ⟨⟨d', hne, hd⟩, hevents⟩ := h
    obtain rfl := ReadEvent.data.inj hd
    refine ⟨⟨_, ?_, rfl⟩, ih ?_⟩
    · have := List.length_pos_iff.2 hne
      refine List.length_pos_iff.1 ?_
      rw [List.length_take]
      omega
    · rcases d.drop (max n 1) with _ | ⟨b, rest⟩
      · exact hevents
      · exact List.forall_mem_cons.2 ⟨⟨_, List.cons_ne_nil b rest, rfl⟩, hevents⟩

namespace Transport.Steady

variable {t t' : Transport}

/-- A stream that brings bytes has not come to its end. -/
theorem not_ends (h : t.Steady) : ¬t.Ends := by
  rintro (⟨-, hclosed⟩ | ⟨r, rs, hreads, hlasts⟩)
  · rw [h.staysOpen] at hclosed
    cases hclosed
  · obtain ⟨d, hne, rfl⟩ := h.brings r (hreads ▸ List.mem_cons_self)
    exact hlasts (by simpa [Read.lasts] using hne)

theorem of_source (h : t.Steady) (hsource : t.SameSource t') : t'.Steady :=
  ⟨hsource.staysOpen.trans h.staysOpen, hsource.reads ▸ h.brings⟩

theorem of_moves {γ υ δ ω : Type} {E : Endpoint γ υ δ ω} {c c' : Connection γ υ δ}
    {given : List (Except Malformed υ)} {rs : List Read} {os : List (Reported υ)} (h : t.Steady)
    (hmoves : c.Moves E t given rs os c' t') : t'.Steady :=
  ⟨hmoves.staysOpen.trans h.staysOpen,
    fun r hr => h.brings r (hmoves.reads ▸ List.mem_append_right rs hr)⟩

theorem lasting (h : t.Steady) : ∀ r ∈ t.reads, r.lasts := by
  intro r hr
  obtain ⟨d, hne, rfl⟩ := h.brings r hr
  simpa [Read.lasts] using hne

/-- Where no bytes are brought, nothing is read. -/
theorem reads_eq_nil (h : t.Steady) (hnothing : (Read.pieces t.reads).flatten = []) :
    t.reads = [] := by
  rcases hreads : t.reads with _ | ⟨r, rs⟩
  · rfl
  · obtain ⟨d, hne, rfl⟩ := h.brings r (hreads ▸ List.mem_cons_self)
    rw [hreads, Read.pieces_cons_ok hne, List.flatten_cons] at hnothing
    exact absurd (List.append_eq_nil_iff.1 hnothing).1 hne

/-- More bytes come behind all that the stream brings. -/
theorem push (h : t.Steady) (hw : t.Writable) {d : Bytes} (hne : d ≠ []) :
    (t.mapStream (·.push (.data d))).reads = t.reads ++ ReadEvent.reads t.chunkSize [.data d]
      ∧ (t.mapStream (·.push (.data d))).Writable ∧ (t.mapStream (·.push (.data d))).Steady := by
  obtain ⟨stream, hstream, hstreamw⟩ := hw
  have hreads : (t.mapStream (·.push (.data d))).reads
      = t.reads ++ ReadEvent.reads t.chunkSize [.data d] := by
    rw [Transport.reads, Transport.reads, Transport.mapStream, hstream]
    exact ReadEvent.reads_append _ _ _
  have hbrings : ∀ r ∈ ReadEvent.reads t.chunkSize [.data d], ∃ d, d ≠ [] ∧ r = .ok d :=
    ReadEvent.brings_of_mem_reads _ (List.forall_mem_singleton.2 ⟨d, hne, rfl⟩)
  have hopen := h.staysOpen
  rw [Transport.staysOpen, hstream] at hopen
  refine ⟨hreads, ⟨stream.push (.data d), ?_, hstreamw.write, hstreamw.flush⟩, ?_, ?_⟩
  · rw [Transport.mapStream, hstream]
    rfl
  · rw [Transport.staysOpen, Transport.mapStream, hstream]
    exact hopen
  · rw [hreads]
    exact List.forall_mem_append.2 ⟨h.brings, hbrings⟩

end Transport.Steady

/-! ## Nothing left -/

namespace Connection

variable {γ υ δ ω : Type} {E : Endpoint γ υ δ ω} {c : Connection γ υ δ} {t : Transport}

/-- The connection has used up all that has come from a stream that stays open. -/
structure Spent (E : Endpoint γ υ δ ω) (c : Connection γ υ δ) (t : Transport) : Prop where
  link : c.link = .connected t
  writable : t.Writable
  staysOpen : t.staysOpen = true
  reads : t.reads = []
  queue : c.queue = []
  goAheadPending : c.goAheadPending = false
  starved : c.Starved E t

/-- Until more comes, receiving finds nothing and writes nothing. -/
theorem Spent.receive (h : c.Spent E t) :
    (c.receive E).1 = (if c.idle then .ok none else .error .timeout)
      ∧ (c.receive E).2.output = c.output := by
  have hsteady : t.Steady := ⟨h.staysOpen, h.reads ▸ List.forall_mem_nil _⟩
  -- no report can be made
  have hreports {given : List (Except Malformed υ)} {rs : List Read} {os : List (Reported υ)}
      {c' : Connection γ υ δ} {t' : Transport} (hmoves : c.Moves E t given rs os c' t') :
      os = [] := by
    obtain ⟨rfl, -⟩ := List.append_eq_nil_iff.1 (h.reads ▸ hmoves.reads).symm
    obtain ⟨n, hadv⟩ := h.starved
    have hfeed := hmoves.runs.reaches E.lawful []
    rw [Read.pieces_nil, List.nil_append, Reception.feed_of_needMore_nil _ hadv] at hfeed
    exact (List.append_eq_nil_iff.1 hfeed.symm).1
  have hreceived := received (E := E) h.link h.writable
  generalize hreceive : c.receive E = b at hreceived ⊢
  cases hreceived with
  | handed hmoves =>
    obtain rfl := hreports hmoves
    have hhanded := hmoves.queue
    rw [h.queue] at hhanded
    cases hhanded
  | blocked hmoves hpending =>
    obtain rfl := hreports hmoves
    obtain ⟨k, houtput, hasks⟩ := hmoves.output
    have hnone := hasks 0
    rw [owed, owed, h.goAheadPending, hpending] at hnone
    obtain ⟨hnone, -⟩ := List.append_eq_nil_iff.1 hnone
    rw [houtput, (List.replicate_eq_nil_iff 0).1 hnone]
    exact ⟨rfl, List.append_nil _⟩
  | ended hmoves _ _ _ hends => exact absurd hends (hsteady.of_moves hmoves).not_ends

end Connection

/-! ## Channels -/

namespace Session

variable {γ υ δ ω : Type}

/-- What has been written between `s` and `s'`. -/
def written (s s' : Session γ υ δ) : Bytes :=
  (s'.connection.output.drop s.connection.output.length).flatten

theorem written_of_output {s s' : Session γ υ δ} {data : List Bytes}
    (h : s'.connection.output = s.connection.output ++ data) : s.written s' = data.flatten := by
  rw [written, h, List.drop_left]

/-- A side that never asks for a literal writes nothing while it receives. -/
theorem written_receive {E : Endpoint γ υ δ ω} (hE : E.grammar.continuationRequest = none)
    (s : Session γ υ δ) : s.written (s.perform E (.receive : Call ω)) = [] := by
  have houtput : (s.perform E (.receive : Call ω)).connection.output = s.connection.output ++ [] :=
    (Connection.output_receive hE s.connection).trans (List.append_nil _).symm
  exact written_of_output houtput

theorem written_setIdle (E : Endpoint γ υ δ ω) (s : Session γ υ δ) (idle : Bool) :
    s.written (s.perform E (.setIdle idle)) = [] := by
  have houtput : (s.perform E (.setIdle idle)).connection.output = s.connection.output ++ [] :=
    (List.append_nil _).symm
  exact written_of_output houtput

/-- These bytes arrive on the connection's stream. -/
def arrive (s : Session γ υ δ) (d : Bytes) : Session γ υ δ :=
  if d.isEmpty then s
  else
    let c := s.connection.mapStream (·.push (.data d))
    { s with connection := c, input := s.done ++ c.reads }

theorem arrive_requests (s : Session γ υ δ) (d : Bytes) : (s.arrive d).requests = s.requests := by
  rw [arrive]
  split <;> rfl

theorem arrive_connection {s s' : Session γ υ δ} (h : s.connection = s'.connection) (d : Bytes) :
    (s.arrive d).connection = (s'.arrive d).connection := by
  rw [arrive, arrive]
  split
  · exact h
  · exact congrArg (fun c => c.mapStream (·.push (.data d))) h

theorem arrive_returned (s : Session γ υ δ) (d : Bytes) : (s.arrive d).returned = s.returned := by
  rw [arrive]
  split <;> rfl

variable {E : Endpoint γ υ δ ω} {g : γ} {chunk : Nat} {s : Session γ υ δ} {bytes : Bytes}

/-- The connection is open at the end of a channel, on which `bytes` have arrived. -/
structure Fed (E : Endpoint γ υ δ ω) (g : γ) (chunk : Nat) (s : Session γ υ δ) (bytes : Bytes) :
    Prop where
  live : ∃ t done past, Live E g chunk s t done past ∧ t.Steady
  bytes : (Read.pieces s.input).flatten = bytes

namespace Fed

/-- A new connection that gets a channel. -/
theorem start {c : Connection γ υ δ} (hc : c.Fresh g) :
    Fed E g c.chunkSize (.start c { staysOpen := true }) [] := by
  have hw : Stream.Writable { staysOpen := true } := ⟨List.forall_mem_nil _, rfl⟩
  obtain ⟨t, hlive⟩ := Live.start (E := E) hc hw
  have hattach : (c.attach { staysOpen := true } none).2.link
      = .connected (.ofStream { staysOpen := true } c.chunkSize) := by
    rw [Connection.attach, Connection.attachError?, hc.link]
    rfl
  have hnothing : Transport.reads (.ofStream { staysOpen := true } c.chunkSize) = [] := by
    show ReadEvent.reads _ [] = []
    rw [ReadEvent.reads]
  obtain rfl := Link.connected.inj (hlive.link.symm.trans hattach)
  refine ⟨⟨_, _, _, hlive, rfl, hnothing ▸ List.forall_mem_nil _⟩, ?_⟩
  rw [hlive.input, hnothing]
  rfl

theorem setIdle (h : Fed E g chunk s bytes) (idle : Bool) :
    Fed E g chunk (s.perform E (.setIdle idle)) bytes :=
  let ⟨t, done, past, hlive, hsteady⟩ := h.live
  ⟨⟨t, done, past, hlive.setIdle idle, hsteady⟩, h.bytes⟩

/-- What arrives is read after what has arrived. -/
theorem arrive (h : Fed E g chunk s bytes) (d : Bytes) :
    Fed E g chunk (s.arrive d) (bytes ++ d) ∧ ∃ link, (s.arrive d).connection
      = { s.connection with link } := by
  rw [Session.arrive]
  split
  · next hd =>
    obtain rfl := List.isEmpty_iff.1 hd
    rw [List.append_nil]
    exact ⟨h, s.connection.link, rfl⟩
  · next hd =>
    have hne : d ≠ [] := by simpa using hd
    obtain ⟨t, done, past, hlive, hsteady⟩ := h.live
    obtain ⟨hreads, hw, hsteady'⟩ := hsteady.push hlive.writable hne
    have hmap : s.connection.mapStream (·.push (.data d))
        = { s.connection with link := .connected (t.mapStream (·.push (.data d))) } := by
      rw [Connection.mapStream, hlive.link]
    set t' := t.mapStream (·.push (.data d))
    have hlive' : Live E g chunk { s with
        connection := { s.connection with link := .connected t' }
        input := done ++ t'.reads } t' done past :=
      hlive.of_transport hw rfl rfl rfl rfl rfl rfl
    rw [hmap, hlive.done_eq]
    refine ⟨⟨⟨t', done, past, hlive', hsteady'⟩, ?_⟩, _, rfl⟩
    have hlasting : ∀ r ∈ s.input, r.lasts := by
      rw [hlive.input]
      exact List.forall_mem_append.2 ⟨hlive.lasting, hsteady.lasting⟩
    have hflatten := Bytes.flatten_readBy t.chunkSize (by simpa using hd : [] ∉ [d])
    rw [List.flatten_singleton] at hflatten
    show (Read.pieces (done ++ t'.reads)).flatten = bytes ++ d
    rw [hreads, ← List.append_assoc, ← hlive.input, Read.pieces_append hlasting,
      List.flatten_append, h.bytes]
    exact congrArg (bytes ++ ·) hflatten

/-- The connection does not come to its end while it receives, and writes nothing but requests. -/
theorem receive (h : Fed E g chunk s bytes) :
    Fed E g chunk (s.perform E (.receive : Call ω)) bytes
      ∧ s.connection.SameSettings (s.perform E (.receive : Call ω)).connection
      ∧ ∃ k, s.written (s.perform E (.receive : Call ω)) = (E.requests k).flatten
        ∧ (s.perform E (.receive : Call ω)).requests
          = s.requests ++ (E.requests k).map (·, s.returned.length) := by
  have houtputs {k : Nat}
      (houtput : (s.connection.receive E).2.output = s.connection.output ++ E.requests k) :
      s.written (s.perform E (.receive : Call ω)) = (E.requests k).flatten
        ∧ (s.perform E (.receive : Call ω)).requests
          = s.requests ++ (E.requests k).map (·, s.returned.length) := by
    refine ⟨written_of_output houtput, ?_⟩
    rw [Session.perform]
    simp only [houtput, List.drop_left]
  obtain ⟨t, done, past, hlive, hsteady⟩ := h.live
  have hreceived := Connection.received (E := E) hlive.link hlive.writable
  generalize hreceive : s.connection.receive E = b at hreceived houtputs
  have hconnection : (s.perform E (.receive : Call ω)).connection = b.2 :=
    congrArg Prod.snd hreceive
  rw [hconnection]
  cases hreceived with
  | @handed result rs os c' t' hmoves =>
    have hlive' :
        Live E g chunk (s.perform E (.receive : Call ω)) t' (done ++ rs) (past ++ os) := by
      refine hlive.of_moves hmoves ?_
      rw [Session.perform, hreceive]
      simp only [Connection.returned?_handed]
      rfl
    obtain ⟨k, houtput, -⟩ := hmoves.output
    exact ⟨⟨⟨t', _, _, hlive', hsteady.of_moves hmoves⟩, h.bytes⟩, hmoves.settings, k,
      houtputs houtput⟩
  | @blocked rs os c' t' hmoves =>
    have hlive' := hlive.of_nothing hmoves (by cases s.connection.idle <;> rfl) hreceive
    obtain ⟨k, houtput, -⟩ := hmoves.output
    exact ⟨⟨⟨t', _, _, hlive', hsteady.of_moves hmoves⟩, h.bytes⟩, hmoves.settings, k,
      houtputs houtput⟩
  | ended hmoves _ _ _ hends => exact absurd hends (hsteady.of_moves hmoves).not_ends

/-- A unit is sent as far as the peer need not ask for it. -/
theorem send (h : Fed E g chunk s bytes) (hpending : s.connection.pending = []) (unit : ω) :
    ∃ link, s.connection.send E unit
        = (.ok (if (E.write s.connection.writer unit).rest.isEmpty then .sent else .awaiting),
          { s.connection with
            link
            output := s.connection.output ++ (E.write s.connection.writer unit).first.asWrites
            pending := (E.write s.connection.writer unit).rest })
      ∧ s.written (s.perform E (.send unit)) = (E.write s.connection.writer unit).first
      ∧ Fed E g chunk (s.perform E (.send unit)) bytes := by
  obtain ⟨t, done, past, hlive, hsteady⟩ := h.live
  obtain ⟨t', hsegment, hsource, hbuffer⟩ := Connection.sendSegment_eq E hlive.link hlive.writable
    (E.write s.connection.writer unit).first (E.write s.connection.writer unit).rest
  have hsend : s.connection.send E unit = s.connection.sendSegment E
      (E.write s.connection.writer unit).first (E.write s.connection.writer unit).rest := by
    rw [Connection.send, hlive.openError?_eq, Connection.isAwaiting, hpending]
    rfl
  rw [perform, hsend, hsegment]
  exact ⟨_, rfl, (written_of_output rfl).trans (Bytes.flatten_asWrites _),
    ⟨t', done, past, hlive.of_source hsource hbuffer rfl rfl rfl rfl,
      hsteady.of_source hsource⟩, h.bytes⟩

/-- While segments of a unit wait, another unit is refused. -/
theorem send_of_awaiting (h : Fed E g chunk s bytes) (hpending : s.connection.pending ≠ [])
    (unit : ω) : s.connection.send E unit = (.error .continuationPending, s.connection) := by
  obtain ⟨t, done, past, hlive, -⟩ := h.live
  have hawaiting : s.connection.isAwaiting = true := by
    simpa [Connection.isAwaiting] using hpending
  rw [Connection.send, hlive.openError?_eq]
  simp only [hawaiting, if_true]

/-- The next segment is sent. -/
theorem sendContinuation (h : Fed E g chunk s bytes) {segment : Bytes} {pending : List Bytes}
    (hpending : s.connection.pending = segment :: pending) :
    ∃ outcome link, s.connection.sendContinuation E = (.ok outcome, { s.connection with
        link
        output := s.connection.output ++ segment.asWrites
        pending })
      ∧ s.written (s.perform E .sendContinuation) = segment
      ∧ Fed E g chunk (s.perform E .sendContinuation) bytes := by
  obtain ⟨t, done, past, hlive, hsteady⟩ := h.live
  obtain ⟨t', hsegment, hsource, hbuffer⟩ :=
    Connection.sendSegment_eq E hlive.link hlive.writable segment pending
  have hsend : s.connection.sendContinuation E = s.connection.sendSegment E segment pending := by
    rw [Connection.sendContinuation, hlive.openError?_eq, hpending]
  rw [perform, hsend, hsegment]
  exact ⟨_, _, rfl, (written_of_output rfl).trans (Bytes.flatten_asWrites _),
    ⟨t', done, past, hlive.of_source hsource hbuffer rfl rfl rfl rfl,
      hsteady.of_source hsource⟩, h.bytes⟩

/-! ## What has been returned and asked for -/

/-- What has been reported comes first among all that is reported when more arrives. -/
theorem returned_prefix (h : Fed E g chunk s bytes) (later : List Bytes) :
    s.returned <+: Reported.results (Reception.feed E.lawful { state := g, buffer := [] }
      (Read.pieces s.input ++ later)) := by
  obtain ⟨t, done, past, hlive, -⟩ := h.live
  exact hlive.returned_prefix.trans ((Reception.feed_prefix_feed E.lawful _ _ later).filterMap _)

/-- So many literals have been asked for at most. -/
theorem length_requests_le (h : Fed E g chunk s bytes) {request : Bytes}
    (hrequest : E.requests 1 = [request]) (later : List Bytes) :
    s.requests.length ≤ (Reported.dues 0 (Reception.feed E.lawful { state := g, buffer := [] }
      (Read.pieces s.input ++ later))).length := by
  obtain ⟨t, done, past, hlive, -⟩ := h.live
  obtain ⟨dues, hrequests, howed⟩ := hlive.requests
  obtain ⟨more, hmore⟩ :=
    hlive.prefix_heard.trans (Reception.feed_prefix_feed E.lawful _ _ later)
  rw [hrequests, asked_eq hrequest, List.length_map, ← hmore, Reported.dues_append, ← howed,
    List.length_append, List.length_append]
  omega

/-- When a call hands nothing out, nothing is left. -/
theorem spent (h : Fed E g chunk s bytes)
    (hnone : Connection.returned? (s.connection.receive E).1 = none) :
    ∃ t done past, Live E g chunk (s.perform E (.receive : Call ω)) t done past
      ∧ (s.perform E (.receive : Call ω)).connection.Spent E t
      ∧ (s.connection.receive E).1 = if (s.perform E (.receive : Call ω)).connection.idle
        then .ok none else .error .timeout := by
  obtain ⟨t, done, past, hlive, hsteady⟩ := h.live
  have hreceived := Connection.received (E := E) hlive.link hlive.writable
  generalize hreceive : s.connection.receive E = b at hreceived hnone ⊢
  cases hreceived with
  | @handed result => cases result <;> cases hnone
  | @blocked rs os c' t' hmoves hpending hqueue hstarved hblocked =>
    have hlive' := hlive.of_nothing hmoves hnone hreceive
    have hconnection : (s.perform E (.receive : Call ω)).connection = c' := by
      rw [Session.perform, hreceive]
    have hsteady' := hsteady.of_moves hmoves
    have hnothing : t'.reads = [] := by
      rcases hblocked with ⟨e, hlast, -⟩ | ⟨hnil, -⟩
      · -- no read has failed
        have hmem : .error e ∈ t.reads :=
          hmoves.reads ▸ List.mem_append_left _ (List.mem_of_getLast? hlast)
        obtain ⟨d, -, hd⟩ := hsteady.brings _ hmem
        cases hd
      · exact hnil
    refine ⟨t', _, _, hlive', ?_⟩
    rw [hconnection]
    exact ⟨⟨hmoves.link, hmoves.writable hlive.writable, hsteady'.staysOpen, hnothing, hqueue,
        hpending, hstarved⟩,
      by rw [hmoves.settings.idle]⟩
  | ended hmoves _ _ _ hends => exact absurd hends (hsteady.of_moves hmoves).not_ends

/-- When a call has handed nothing out, everything that has arrived has been returned, and all
literals have been asked for. -/
theorem settled (h : Fed E g chunk s bytes)
    (hnone : Connection.returned? (s.connection.receive E).1 = none) :
    s.returned = Reported.results (s.heard E g)
      ∧ (s.perform E (.receive : Call ω)).requests = E.asked (Reported.dues 0 (s.heard E g)) := by
  obtain ⟨t, done, past, hlive, hspent, -⟩ := h.spent (ω := ω) hnone
  obtain ⟨hreturned, hrequests⟩ := hlive.of_end hspent.queue hspent.goAheadPending hspent.starved
    (hspent.reads ▸ Read.pieces_nil)
  refine ⟨?_, hrequests⟩
  have hsame : (s.perform E (.receive : Call ω)).returned = s.returned := by
    show s.returned ++ (Connection.returned? (s.connection.receive E).1).toList = s.returned
    rw [hnone]
    exact List.append_nil _
  exact hsame.symm.trans hreturned

/-- A call that comes right after one that has found nothing finds nothing either, and writes
nothing. -/
theorem receive_again (h : Fed E g chunk s bytes) (hnone : (s.connection.receive E).1 = .ok none) :
    ((s.perform E (.receive : Call ω)).connection.receive E).1 = .ok none
      ∧ (s.perform E (.receive : Call ω)).written
          ((s.perform E (.receive : Call ω)).perform E (.receive : Call ω)) = [] := by
  obtain ⟨t, done, past, -, hspent, hsame⟩ :=
    h.spent (ω := ω) (congrArg Connection.returned? hnone)
  obtain ⟨hagain, houtput⟩ := hspent.receive
  refine ⟨hagain.trans (hsame.symm.trans hnone), ?_⟩
  rw [← List.flatten_nil]
  exact written_of_output (houtput.trans (List.append_nil _).symm)

end Fed

end Session

end MailProtocol
