import MailProtocol.Proofs.Connection.Reads

/-!
# What writing does

Writing changes nothing about what is to come (`Transport.SameSource`). It goes well, and then the
stream has been given the data, or it fails (`Transport.FailsToWrite`), and then the connection is
shut (`Connection.Shut`): that is all that `Connection.transmit` can do (`transmit_cases`). Where no
write and no flush fails it goes well (`sendSegment_eq`).
-/

namespace MailProtocol

/-- What is recorded of a write; writing nothing is no write. -/
def Bytes.asWrites (data : Bytes) : List Bytes := if data.isEmpty then [] else [data]

/-- What is recorded of a write is what has been written. -/
theorem Bytes.flatten_asWrites (data : Bytes) : data.asWrites.flatten = data := by
  rw [asWrites]
  split
  · next hdata => exact (List.isEmpty_iff.1 hdata).symm
  · exact List.flatten_singleton

/-- How a failure to write is told. -/
def StreamError.ofWrite (e : StreamError) : Error := if e.isWouldBlock then .timeout else .stream e

/-! ## The stream of a transport -/

namespace Stream

/-- The stream has been given these writes, and the same is still to come. -/
structure Written (s : Stream) (writes : List Bytes) (s' : Stream) : Prop where
  incoming : s'.incoming = s.incoming
  staysOpen : s'.staysOpen = s.staysOpen
  written : s'.written = s.written ++ writes
  writable : s.Writable → s'.Writable

theorem writeAll_cases (s : Stream) (data : Bytes) :
    (∃ s', s.writeAll data = (.ok (), s') ∧ s.Written data.asWrites s')
      ∨ ∃ e s', s.writeAll data = (.error e, s') ∧ ¬s.Writable := by
  rw [writeAll]
  split
  · next hdata =>
    have hnothing : data.asWrites = [] := if_pos hdata
    exact .inl ⟨s, rfl, rfl, rfl, by rw [hnothing, List.append_nil], id⟩
  · next hdata =>
    have honce : data.asWrites = [data] := if_neg hdata
    split
    · exact .inl ⟨_, rfl, rfl, rfl, by rw [honce], fun hw => ⟨hw.write, hw.flush⟩⟩
    · exact .inl ⟨_, rfl, rfl, rfl, by rw [honce], fun hw => ⟨List.forall_mem_nil _, hw.flush⟩⟩
    · next e later _ hfailures =>
      refine .inr ⟨e, _, rfl, fun hw => ?_⟩
      have hnone : s.writeFailures.dropWhile (·.kind = .interrupted) = [] :=
        List.dropWhile_eq_nil_iff.2 fun e he => decide_eq_true (hw.write e he)
      rw [hnone] at hfailures
      cases hfailures

theorem flush_cases (s : Stream) :
    (∃ s', s.flush = (.ok (), s') ∧ s.Written [] s')
      ∨ ∃ e s', s.flush = (.error e, s') ∧ ¬s.Writable := by
  have hnothing : s.written = s.written ++ [] := (List.append_nil _).symm
  rw [flush]
  split
  · exact .inl ⟨_, rfl, rfl, rfl, hnothing, fun hw => ⟨hw.write, hw.flush⟩⟩
  · exact .inl ⟨s, rfl, rfl, rfl, hnothing, id⟩
  · next e later _ hfailures =>
    refine .inr ⟨e, _, rfl, fun hw => ?_⟩
    rw [hw.flush] at hfailures
    cases hfailures

end Stream

namespace Transport

variable {t t' : Transport} {data : Bytes}

/-- The stream has been given these writes, and nothing else has changed. -/
structure Written (t : Transport) (writes : List Bytes) (t' : Transport) : Prop
    extends SameSource t t' where
  buffer : t'.buffer = t.buffer
  written : t'.written = t.written ++ writes

theorem Written.refl (t : Transport) : t.Written [] t :=
  ⟨.refl t, rfl, (List.append_nil _).symm⟩

theorem Written.of_stream {s s' : Stream} {writes : List Bytes} (hs : t.stream = some s)
    (h : s.Written writes s') : t.Written writes { t with stream := some s' } := by
  obtain ⟨stream, buffer, chunkSize, upgraded⟩ := t
  subst hs
  refine ⟨⟨⟨rfl, h.staysOpen, rfl, rfl, ?_⟩, ?_⟩, rfl, h.written⟩
  · rintro ⟨_, heq, hw⟩
    obtain rfl := Option.some.inj heq
    exact ⟨s', rfl, h.writable hw⟩
  · show ReadEvent.reads chunkSize s'.incoming = ReadEvent.reads chunkSize s.incoming
    rw [h.incoming]

/-- Writing `data` fails with `e`, or flushing it does. -/
def FailsToWrite (t : Transport) (data : Bytes) (e : StreamError) : Prop :=
  (t.writeAll data).1 = .error e
    ∨ ∃ t', t.writeAll data = (.ok (), t') ∧ t'.flush.1 = .error e

theorem writeAll_cases (t : Transport) (data : Bytes) :
    (∃ t', t.writeAll data = (.ok (), t') ∧ t.Written data.asWrites t')
      ∨ ∃ e t', t.writeAll data = (.error e, t') ∧ ¬t.Writable := by
  rw [writeAll]
  rcases hs : t.stream with _ | s
  · exact .inr ⟨_, _, rfl, fun ⟨s, hs', _⟩ => by rw [hs] at hs'; cases hs'⟩
  · rcases s.writeAll_cases data with ⟨s', heq, h⟩ | ⟨e, s', heq, hw⟩
    · refine .inl ⟨{ t with stream := some s' }, ?_, .of_stream hs h⟩
      simp only [heq]
    · refine .inr ⟨e, { t with stream := some s' }, ?_, fun ⟨s₁, hs', hw'⟩ => ?_⟩
      · simp only [heq]
      · rw [hs] at hs'
        exact hw (Option.some.inj hs' ▸ hw')

theorem flush_cases (t : Transport) :
    (∃ t', t.flush = (.ok (), t') ∧ t.Written [] t')
      ∨ ∃ e t', t.flush = (.error e, t') ∧ ¬t.Writable := by
  rw [flush]
  rcases hs : t.stream with _ | s
  · exact .inr ⟨_, _, rfl, fun ⟨s, hs', _⟩ => by rw [hs] at hs'; cases hs'⟩
  · rcases s.flush_cases with ⟨s', heq, h⟩ | ⟨e, s', heq, hw⟩
    · refine .inl ⟨{ t with stream := some s' }, ?_, .of_stream hs h⟩
      simp only [heq]
    · refine .inr ⟨e, { t with stream := some s' }, ?_, fun ⟨s₁, hs', hw'⟩ => ?_⟩
      · simp only [heq]
      · rw [hs] at hs'
        exact hw (Option.some.inj hs' ▸ hw')

/-- A stream of which no write and no flush fails takes all data. -/
theorem FailsToWrite.not_writable {e : StreamError} (h : t.FailsToWrite data e) : ¬t.Writable := by
  intro hw
  rcases t.writeAll_cases data with ⟨t', heq, hwritten⟩ | ⟨e', t', heq, hnot⟩
  · rcases h with h | ⟨t'', heq', h⟩
    · rw [heq] at h
      cases h
    · obtain ⟨-, rfl⟩ := Prod.mk.inj (heq.symm.trans heq')
      rcases t'.flush_cases with ⟨_, hflush, -⟩ | ⟨_, _, -, hnot⟩
      · rw [hflush] at h
        cases h
      · exact hnot (hwritten.writable hw)
  · exact hnot hw

end Transport

/-! ## Sending -/

namespace Connection

variable {γ υ δ ω : Type}

/-- Nothing is left of what has been received or was to be sent. -/
structure Cleared (c : Connection γ υ δ) : Prop where
  queue : c.queue = []
  pending : c.pending = []
  goAheadPending : c.goAheadPending = false
  fragment : c.receiver.fragment = .empty

/-- The connection has been closed. -/
structure Shut (c : Connection γ υ δ) : Prop extends Cleared c where
  link : c.link = .closed

variable (E : Endpoint γ υ δ ω) {c : Connection γ υ δ} {t : Transport}

/-- Closing leaves only the records. -/
theorem shut_close (c : Connection γ υ δ) : (c.close E).Shut ∧ (c.close E).output = c.output := by
  refine ⟨⟨⟨rfl, rfl, rfl, rfl⟩, rfl⟩, ?_⟩
  rw [close]
  split <;> rfl

/-- Closing makes the grammar start afresh. -/
theorem receiver_close (c : Connection γ υ δ) :
    (c.close E).receiver = c.receiver.reset E.grammar := by
  rw [close]
  split <;> rfl

/-- Writing `data` has failed, and the connection has been closed. What was written before the flush
failed stays recorded. -/
structure Breaks (c : Connection γ υ δ) (t : Transport) (data : Bytes) (e : StreamError)
    (c' : Connection γ υ δ) : Prop where
  fails : t.FailsToWrite data e
  shut : c'.Shut
  output : c'.output = c.output ∨ c'.output = c.output ++ data.asWrites

theorem transmit_cases (hl : c.link = .connected t) (data : Bytes) :
    (∃ t', c.transmit E data
        = (.ok (), { c with link := .connected t', output := c.output ++ data.asWrites })
      ∧ t.Written data.asWrites t')
    ∨ ∃ e c', c.transmit E data = (.error e.ofWrite, c') ∧ Breaks c t data e c' := by
  have houtput : (if data.isEmpty then c.output else c.output ++ [data])
      = c.output ++ data.asWrites := by
    rw [Bytes.asWrites]
    split <;> simp
  rw [transmit, hl]
  rcases t.writeAll_cases data with ⟨t₁, hwrite, hwritten⟩ | ⟨e, t₁, hwrite, -⟩
  -- what has been written is recorded before the flush, which may fail in its turn
  · rcases t₁.flush_cases with ⟨t₂, hflush, hflushed⟩ | ⟨e, t₂, hflush, -⟩
    · left
      refine ⟨t₂, ?_, hwritten.toSameSource.trans hflushed.toSameSource,
        hflushed.buffer.trans hwritten.buffer, ?_⟩
      · simp only [hwrite, hflush, houtput]
      · rw [hflushed.written, hwritten.written]
        exact List.append_nil _
    · right
      simp only [hwrite, hflush, houtput, writeFailed]
      obtain ⟨hshut, hclose⟩ := shut_close E
        ({ c with link := .connected t₂, output := c.output ++ data.asWrites }.warn
          ("Write failed: " ++ e.text))
      exact ⟨e, _, rfl, .inr ⟨t₁, hwrite, by rw [hflush]⟩, hshut, .inr hclose⟩
  · right
    simp only [hwrite, writeFailed]
    obtain ⟨hshut, hclose⟩ := shut_close E
      ({ c with link := .connected t₁ }.warn ("Write failed: " ++ e.text))
    exact ⟨e, _, rfl, .inl (by rw [hwrite]), hshut, .inl hclose⟩

theorem transmit_of_fails (hl : c.link = .connected t) {data : Bytes} {e : StreamError}
    (h : t.FailsToWrite data e) : ∃ c', c.transmit E data = (.error e.ofWrite, c') ∧ c'.Shut := by
  rw [transmit, hl]
  rcases h with h | ⟨t', hwrite, h⟩
  · rcases hwrite : t.writeAll data with ⟨result, t'⟩
    rw [hwrite] at h
    obtain rfl : result = .error e := h
    simp only [hwrite, writeFailed]
    exact ⟨_, rfl, (shut_close E _).1⟩
  · rcases hflush : t'.flush with ⟨result, t''⟩
    rw [hflush] at h
    obtain rfl : result = .error e := h
    simp only [hwrite, hflush, writeFailed]
    exact ⟨_, rfl, (shut_close E _).1⟩

/-- When something cannot be written, the grammar starts afresh. -/
theorem receiver_of_transmit_error (hl : c.link = .connected t) {data : Bytes} {e : Error}
    {c' : Connection γ υ δ} (h : c.transmit E data = (.error e, c')) :
    c'.receiver = c.receiver.reset E.grammar := by
  rw [transmit, hl] at h
  simp only at h
  split at h
  · obtain ⟨-, rfl⟩ := Prod.mk.inj h
    exact receiver_close E _
  · split at h
    · obtain ⟨-, rfl⟩ := Prod.mk.inj h
      exact receiver_close E _
    · cases h

/-- A segment is written, and the others wait. -/
theorem sendSegment_cases (hl : c.link = .connected t) (segment : Bytes) (pending : List Bytes) :
    (∃ t', c.sendSegment E segment pending = (.ok (if pending.isEmpty then .sent else .awaiting),
        { c with link := .connected t', output := c.output ++ segment.asWrites, pending })
      ∧ t.Written segment.asWrites t')
    ∨ ∃ e c', c.sendSegment E segment pending = (.error e.ofWrite, c')
      ∧ Breaks c t segment e c' := by
  rcases transmit_cases E hl segment with ⟨t', htransmit, hwritten⟩ | ⟨e, c', htransmit, hbreaks⟩
  · left
    refine ⟨t', ?_, hwritten⟩
    rw [sendSegment, htransmit]
    simp only [sendOutcome, isAwaiting]
    cases pending <;> rfl
  · right
    refine ⟨e, c', ?_, hbreaks⟩
    rw [sendSegment, htransmit]

theorem sendSegment_of_fails (hl : c.link = .connected t) {segment : Bytes} {e : StreamError}
    (h : t.FailsToWrite segment e) (pending : List Bytes) :
    ∃ c', c.sendSegment E segment pending = (.error e.ofWrite, c') ∧ c'.Shut := by
  obtain ⟨c', htransmit, hshut⟩ := transmit_of_fails E hl h
  refine ⟨c', ?_, hshut⟩
  rw [sendSegment, htransmit]

theorem receiver_of_sendSegment_error (hl : c.link = .connected t) {segment : Bytes}
    {pending : List Bytes} {e : Error} {c' : Connection γ υ δ}
    (h : c.sendSegment E segment pending = (.error e, c')) :
    c'.receiver = c.receiver.reset E.grammar := by
  rw [sendSegment] at h
  split at h
  · next htransmit =>
    obtain ⟨-, rfl⟩ := Prod.mk.inj h
    exact receiver_of_transmit_error E hl htransmit
  · cases h

/-- Sending succeeds where no write and no flush fails, and has nothing to do with reading. -/
theorem sendSegment_eq (hl : c.link = .connected t) (hw : t.Writable) (segment : Bytes)
    (pending : List Bytes) :
    ∃ t', c.sendSegment E segment pending = (.ok (if pending.isEmpty then .sent else .awaiting),
        { c with link := .connected t', output := c.output ++ segment.asWrites, pending })
      ∧ t.SameSource t' ∧ t'.buffer = t.buffer := by
  rcases sendSegment_cases E hl segment pending with ⟨t', heq, h⟩ | ⟨e, c', -, h⟩
  · exact ⟨t', heq, h.toSameSource, h.buffer⟩
  · exact absurd hw h.fails.not_writable

end Connection

end MailProtocol
