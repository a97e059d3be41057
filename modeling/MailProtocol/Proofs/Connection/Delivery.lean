import MailProtocol.Imap.Endpoint
import MailProtocol.Proofs.Connection.Session

/-!
# What a connection delivers

A connection returns just the results that a bare receiver reports from the same reads, one after
the other, whatever else is done between the calls of `Connection.receive`
(`Session.delivers_run`). None is lost when a call finds nothing to read, and none is left when a
call finds the end.
-/

namespace MailProtocol

variable {γ υ δ ω : Type}

namespace Session

variable {E : Endpoint γ υ δ ω} {g : γ} {chunk : Nat} {s : Session γ υ δ} {t : Transport}
  {done : List Read} {past : List (Reported υ)}

/-- The results of a bare receiver that begins afresh and is pumped over what these reads give. -/
def results (E : Endpoint γ υ δ ω) (g : γ) (chunk : Nat) (rs : List Read) :
    List (Except Malformed υ) :=
  Reported.results (Receiver.reports E.lawful g chunk (Read.pieces rs))

/-- From `s` to `s'` a call found nothing to read: the connection is still open, the last read has
found nothing there, and all results of what has been read have been returned. -/
structure Pauses (E : Endpoint γ υ δ ω) (g : γ) (chunk : Nat) (s s' : Session γ υ δ) : Prop where
  isOpen : s'.connection.isOpen
  blocked : ∃ t rs, s'.connection.link = .connected t ∧ s'.done = s.done ++ rs ∧ t.Blocked rs
  returned : s'.returned = results E g chunk s'.done

/-- What a call can answer while the connection is open. -/
inductive Answers (E : Endpoint γ υ δ ω) (g : γ) (chunk : Nat) (s : Session γ υ δ) :
    Except Error (Option υ) → Prop
  /-- The next of the results of a bare receiver. -/
  | next {result : Except Malformed υ} (h : s.returned ++ [result] <+: results E g chunk s.input) :
    Answers E g chunk s (Connection.handed result)
  /-- There is nothing to read now. -/
  | nothing : Answers E g chunk s (if s.connection.idle then .ok none else .error .timeout)
  /-- There will be nothing more. -/
  | ended {e : Error} (he : e.isEnd) : Answers E g chunk s (.error e)

/-- The connection delivers what a bare receiver reports. -/
structure Delivers (E : Endpoint γ υ δ ω) (g : γ) (chunk : Nat) (s : Session γ υ δ) : Prop where
  /-- What has been returned comes first: nothing is lost, returned twice or replaced. -/
  returned : s.returned <+: results E g chunk s.input
  /-- Every call of an open connection returns the next result, or says why there is none. -/
  answers : s.connection.isOpen → Answers E g chunk s (s.connection.receive E).1
  /-- A closed connection says that it is closed. -/
  closed : s.connection.isOpen = false → s.connection.receive E = (.error .closed, s.connection)
  /-- The end of an open connection is told after all results. -/
  ended : ∀ e : Error, e.isEnd → s.connection.isOpen → (s.connection.receive E).1 = .error e →
    s.returned = results E g chunk s.input
  /-- Only an idle connection says that there is nothing yet. -/
  nothing : (s.connection.receive E).1 = .ok none →
    s.connection.idle = true ∧ Pauses E g chunk s (s.perform E (.receive : Call ω))
  timeout : (s.connection.receive E).1 = .error .timeout →
    s.connection.idle = false ∧ Pauses E g chunk s (s.perform E (.receive : Call ω))

/-- Reads that are not longer than what a bare receiver asks for are what it reads. -/
theorem reports_eq {rs : List Read} (hfit : ∀ d, .ok d ∈ rs → d.length ≤ max chunk 1) :
    Receiver.reports E.lawful g chunk (Read.pieces rs)
      = Reception.feed E.lawful { state := g, buffer := [] } (Read.pieces rs) := by
  rw [Receiver.reports_eq_feed, Bytes.readBy,
    ReadEvent.pieces_reads_map_data (Read.nil_not_mem_pieces rs)]
  exact fun d hd => hfit d (Read.mem_pieces hd).2

theorem results_eq {rs : List Read} (hfit : ∀ d, .ok d ∈ rs → d.length ≤ max chunk 1) :
    results E g chunk rs = Reported.results
      (Reception.feed E.lawful { state := g, buffer := [] } (Read.pieces rs)) := by
  rw [results, reports_eq hfit]

namespace Closed

theorem isOpen_eq (h : Closed E g chunk s) : s.connection.isOpen = false := by
  rw [Connection.isOpen, h.link]
  rfl

theorem receive_eq (h : Closed E g chunk s) :
    s.connection.receive E = (.error .closed, s.connection) := by
  rw [Connection.receive, h.queue, Connection.openError?, h.link]
  rfl

theorem delivers (h : Closed E g chunk s) : s.Delivers E g chunk := by
  refine ⟨?_, ?_, fun _ => h.receive_eq, ?_, ?_, ?_⟩
  · rw [results_eq h.fit]
    exact h.returned
  · rw [h.isOpen_eq]
    exact nofun
  · intro e _ hopen
    rw [h.isOpen_eq] at hopen
    cases hopen
  · intro hnone
    rw [h.receive_eq] at hnone
    cases hnone
  · intro htimeout
    rw [h.receive_eq] at htimeout
    cases htimeout

end Closed

namespace Live

theorem isOpen_eq (h : Live E g chunk s t done past) : s.connection.isOpen = true := by
  rw [Connection.isOpen, h.link]
  rfl

/-- A call that finds nothing to read has returned all that there is. -/
theorem pauses (h : Live E g chunk s t done past) {rs : List Read} {os : List (Reported υ)}
    {c' : Connection γ υ δ} {t' : Transport} (hmoves : s.connection.Moves E t [] rs os c' t')
    (hqueue : c'.queue = []) (hstarved : c'.Starved E t') (hblocked : t'.Blocked rs)
    {result : Except Error (Option υ)} (hnone : Connection.returned? result = none)
    (hreceive : s.connection.receive E = (result, c')) :
    Pauses E g chunk s (s.perform E (.receive : Call ω)) := by
  have hlive := h.of_nothing hmoves hnone hreceive
  have hconnection : (s.perform E (.receive : Call ω)).connection = c' := by
    rw [Session.perform, hreceive]
  refine ⟨hlive.isOpen_eq, ⟨t', rs, hlive.link, by rw [hlive.done_eq, h.done_eq], hblocked⟩, ?_⟩
  have hresults := hlive.results
  rw [hconnection, hqueue, List.append_nil] at hresults
  rw [hlive.done_eq, results_eq hlive.fit, hlive.feed_eq (hconnection ▸ hstarved), hresults]

/-- A call returns the next result, or finds that there is none. -/
theorem answers (h : Live E g chunk s t done past) :
    Answers E g chunk s (s.connection.receive E).1 := by
  have hreceived := Connection.received (E := E) h.link h.writable
  generalize s.connection.receive E = b at hreceived
  cases hreceived with
  | @handed result rs os c' t' hmoves =>
    refine .next ?_
    rw [results_eq h.fit_input]
    have hnext := h.of_moves hmoves rfl
    exact hnext.returned_prefix
  | blocked => exact .nothing
  | ended _ _ _ _ _ he => exact .ended he

theorem delivers (h : Live E g chunk s t done past) : s.Delivers E g chunk := by
  have hreceived := Connection.received (E := E) h.link h.writable
  generalize hreceive : s.connection.receive E = b at hreceived
  refine ⟨?_, fun _ => h.answers, ?_, ?_, ?_, ?_⟩
  · rw [results_eq h.fit_input]
    exact h.returned_prefix
  · rw [h.isOpen_eq]
    exact nofun
  all_goals rw [hreceive]
  · intro e he _ hend
    cases hreceived with
    | @handed result =>
      -- the end is no refusal
      cases result <;> cases hend
      cases he
    | blocked =>
      cases hidle : s.connection.idle <;> rw [hidle] at hend <;> cases hend
      cases he
    | ended hmoves hpending hqueue hstarved hends he' hshut houtput =>
      rw [results_eq h.fit_input]
      exact (h.of_ended hmoves hpending hqueue hstarved hends he' hshut houtput hreceive).2
  all_goals
    intro hnothing
    cases hreceived with
    | @handed result => cases result <;> cases hnothing
    | blocked hmoves hpending hqueue hstarved hblocked =>
      cases hidle : s.connection.idle <;> rw [hidle] at hnothing hreceive <;> cases hnothing
      exact ⟨rfl, h.pauses hmoves hqueue hstarved hblocked rfl hreceive⟩
    | ended _ _ _ _ _ he => cases hnothing <;> cases he

end Live

/-- Only another stream changes what is read. -/
theorem input_run {calls : List (Call ω)}
    (hcalls : ∀ call ∈ calls, ∀ handshake, call ≠ .upgrade handshake) :
    (s.run E calls).input = s.input := by
  induction calls generalizing s with
  | nil => rfl
  | cons call calls ih =>
    rw [List.forall_mem_cons] at hcalls
    have hinput : (s.perform E call).input = s.input := by
      cases call with
      | upgrade handshake => exact absurd rfl (hcalls.1 handshake)
      | receive | setIdle idle | send unit | sendContinuation => rfl
    rw [← hinput]
    exact ih hcalls.2

theorem input_start {c : Connection γ υ δ} (hc : c.Fresh g) (stream : Stream) :
    (start c stream).input = ReadEvent.reads c.chunkSize stream.incoming := by
  rw [start, Connection.attach, Connection.attachError?, hc.link]
  rfl

/-- A new connection to a stream whose writing does not fail delivers what a bare receiver reports
from the same reads, whatever calls its user makes. They are the reads of the one stream, unless it
is replaced: then those made before come first, and the new stream's after them. -/
theorem delivers_run (E : Endpoint γ υ δ ω) {c : Connection γ υ δ} (hc : c.Fresh g)
    {stream : Stream} (hw : stream.Writable) {calls : List (Call ω)}
    (hcalls : ∀ call ∈ calls, call.Safe) :
    ((start c stream).run E calls).Delivers E g c.chunkSize
      ∧ ((∀ call ∈ calls, ∀ handshake, call ≠ .upgrade handshake) →
        results E g c.chunkSize ((start c stream).run E calls).input = Reported.results
          (Receiver.reports E.lawful g c.chunkSize (ReadEvent.chunks stream.incoming))) := by
  obtain ⟨t, hstart⟩ := Live.start (E := E) hc hw
  refine ⟨?_, fun hsame => ?_⟩
  · rcases run_standing (.inl ⟨t, [], [], hstart⟩) hcalls with ⟨t', done, past, h⟩ | h
    · exact h.delivers
    · exact h.delivers
  · rw [input_run hsame, results_eq hstart.fit_input, Receiver.reports_eq_feed, Bytes.readBy,
      ReadEvent.pieces_reads_chunks, input_start hc]

/-- A server finds half a command, says so, and goes on over an encrypted stream. The half that was
there stays in front, and what was still to come is given up. -/
theorem delivers_run_starttls :
    let E := Imap.serverEndpoint {}
    let c := Imap.serverConnection {} "1"
    let stream : Stream := { incoming := [.data (Bytes.ascii "a NOOP\r\nb ST"),
      .failure .nothingYet, .data (Bytes.ascii "ARTTLS\r\n")] }
    let calls : List (Call Imap.Response) := [.setIdle true, .receive, .receive, .sendContinuation,
      .upgrade fun _ => .ok { incoming := [.data (Bytes.ascii "NOP\r\n")] }, .receive, .receive]
    c.Fresh () ∧ stream.Writable ∧ (∀ call ∈ calls, call.Safe)
      ∧ ((start c stream).run E calls).returned = [
        .ok { tag := Bytes.ascii "a", verb := Bytes.ascii "NOOP" },
        .ok { tag := Bytes.ascii "b", verb := Bytes.ascii "STNOP" }]
      ∧ ((start c stream).run E calls).connection.isOpen = false
      ∧ ((start c stream).run E calls).Delivers E () c.chunkSize := by
  intro E c stream calls
  have hc : c.Fresh () := ⟨rfl, rfl, rfl, rfl⟩
  have hw : stream.Writable := ⟨List.forall_mem_nil _, rfl⟩
  have hcalls : ∀ call ∈ calls, call.Safe := by
    simp only [calls, List.forall_mem_cons, Call.Safe]
    refine ⟨trivial, trivial, trivial, trivial, ?_, trivial, trivial, List.forall_mem_nil _⟩
    rintro _ _ heq
    obtain rfl := Except.ok.inj heq
    exact ⟨List.forall_mem_nil _, rfl⟩
  exact ⟨hc, hw, hcalls, by decide +kernel, by decide +kernel,
    (delivers_run E hc hw hcalls).1⟩

end Session

end MailProtocol
