import MailProtocol.Connection.Send
import MailProtocol.Proofs.Reception.Feeding

/-!
# What reading gives

`Transport.reads` is what reading a stream again and again will give, read by read. A read lasts
(`Read.lasts`) if the stream can be read again after it: it brought bytes, or it failed in a way
that passes. `Read.pieces` are the bytes that come before the end of the stream or a failure that
does not pass.

Writing changes nothing about what is to come (`Transport.SameSource`), and it succeeds where no
write and no flush fails (`Connection.sendSegment_eq`).
-/

namespace MailProtocol

/-! ## Read by read -/

/-- What one read gives: some bytes, none at the end of the stream, or a failure. -/
abbrev Read := Except StreamError Bytes

/-- The failure does not keep the stream from being read again. -/
def StreamError.passes (e : StreamError) : Bool := e.kind = .interrupted ∨ e.isWouldBlock

namespace Read

/-- The stream can be read again. -/
def lasts : Read → Bool
  | .ok d => !d.isEmpty
  | .error e => e.passes

/-- The bytes that come before the end, read by read. -/
def pieces (rs : List Read) : List Bytes := (rs.takeWhile lasts).filterMap Except.toOption

@[simp]
theorem pieces_nil : pieces [] = [] := rfl

/-- As long as the stream can be read again, reads go on from earlier ones. -/
theorem pieces_append {rs : List Read} (h : ∀ r ∈ rs, r.lasts) (rs' : List Read) :
    pieces (rs ++ rs') = pieces rs ++ pieces rs' := by
  rw [pieces, pieces, List.takeWhile_append_of_pos h, List.filterMap_append,
    List.takeWhile_eq_self_iff.2 h]
  rfl

theorem pieces_cons_ok {d : Bytes} (hd : d ≠ []) (rs : List Read) :
    pieces (.ok d :: rs) = d :: pieces rs := by
  rw [pieces, List.takeWhile_cons_of_pos (by simpa [lasts] using hd)]
  rfl

theorem pieces_cons_error {e : StreamError} (he : e.passes) (rs : List Read) :
    pieces (.error e :: rs) = pieces rs := by
  rw [pieces, List.takeWhile_cons_of_pos (by exact he)]
  rfl

/-- Nothing comes after the end. -/
theorem pieces_of_not_lasts {r : Read} (h : ¬r.lasts) (rs : List Read) : pieces (r :: rs) = [] := by
  rw [pieces, List.takeWhile_cons_of_neg h]
  rfl

theorem mem_pieces {rs : List Read} {d : Bytes} (h : d ∈ pieces rs) : d ≠ [] ∧ .ok d ∈ rs := by
  rw [pieces, List.mem_filterMap] at h
  obtain ⟨r, hr, hd⟩ := h
  obtain e | d' := r
  · cases hd
  · obtain rfl := Option.some.inj hd
    have hlasts := List.mem_takeWhile_imp hr
    refine ⟨?_, (List.takeWhile_sublist _).subset hr⟩
    rintro rfl
    simp [lasts] at hlasts

theorem nil_not_mem_pieces (rs : List Read) : [] ∉ pieces rs := fun h => (mem_pieces h).1 rfl

end Read

namespace ReadEvent

/-- How much is left to come. -/
def total (events : List ReadEvent) : Nat := events.foldr (fun event n => event.size + n) 0

theorem total_putBack_lt {n : Nat} (hn : 0 < n) (d : Bytes) (later : List ReadEvent) :
    total (Stream.putBack (d.drop n) later) < total (data d :: later) := by
  cases hrest : d.drop n with
  | nil => exact Nat.lt_add_of_pos_left (Nat.succ_pos _)
  | cons b rest =>
    have : (d.drop n).length = rest.length + 1 := by rw [hrest, List.length_cons]
    rw [List.length_drop] at this
    simp only [Stream.putBack, total, List.foldr_cons, size, List.length_cons]
    omega

/-- What these events give, read by read, with so many bytes at a time and at least one. -/
def reads (n : Nat) : List ReadEvent → List Read
  | [] => []
  | failure e :: later => .error e :: reads n later
  | data d :: later => .ok (d.take (max n 1)) :: reads n (Stream.putBack (d.drop (max n 1)) later)
termination_by events => total events
decreasing_by
  · exact Nat.lt_add_of_pos_left Nat.one_pos
  · exact total_putBack_lt (Nat.lt_of_lt_of_le Nat.one_pos (Nat.le_max_right n 1)) d later

theorem reads_append (n : Nat) (events later : List ReadEvent) :
    reads n (events ++ later) = reads n events ++ reads n later := by
  fun_induction reads n events with
  | case1 => rfl
  | case2 e events ih => rw [List.cons_append, reads, ih, List.cons_append]
  | case3 d events ih =>
    rw [List.cons_append, reads, List.cons_append, ← ih]
    cases d.drop (max n 1) <;> rfl

/-- A read brings no more than what is asked for. -/
theorem length_le_of_mem_reads {n : Nat} {events : List ReadEvent} {d : Bytes}
    (h : .ok d ∈ reads n events) : d.length ≤ max n 1 := by
  fun_induction reads n events with
  | case1 => cases h
  | case2 e events ih =>
    rw [List.mem_cons] at h
    exact ih (h.resolve_left (by simp))
  | case3 d' events ih =>
    rw [List.mem_cons] at h
    rcases h with heq | h
    · rw [Except.ok.inj heq, List.length_take]
      exact Nat.min_le_left _ _
    · exact ih h

/-- Reading pieces does not fail. -/
theorem isOk_of_mem_reads (n : Nat) {events : List ReadEvent} (h : ∀ e ∈ events, ∃ d, e = data d) :
    ∀ r ∈ reads n events, r.isOk := by
  fun_induction reads n events with
  | case1 => exact List.forall_mem_nil _
  | case2 e events ih =>
    obtain ⟨d, hd⟩ := h _ List.mem_cons_self
    cases hd
  | case3 d events ih =>
    rw [List.forall_mem_cons] at h ⊢
    refine ⟨rfl, ih ?_⟩
    rcases d.drop (max n 1) with _ | ⟨b, rest⟩
    · exact h.2
    · exact List.forall_mem_cons.2 ⟨⟨_, rfl⟩, h.2⟩

/-- The stream can be read again after what this event gives. -/
def lasts : ReadEvent → Bool
  | data d => !d.isEmpty
  | failure e => e.passes

/-- The bytes that the event gives, if it gives any. -/
def data? : ReadEvent → Option Bytes
  | data d => some d
  | failure _ => none

/-- The bytes that come before the end, piece by piece. -/
def chunks (events : List ReadEvent) : List Bytes := (events.takeWhile lasts).filterMap data?

theorem chunks_cons_data {d : Bytes} (hd : d ≠ []) (later : List ReadEvent) :
    chunks (data d :: later) = d :: chunks later := by
  rw [chunks, List.takeWhile_cons_of_pos (by simpa [lasts] using hd)]
  rfl

theorem chunks_cons_failure {e : StreamError} (he : e.passes) (later : List ReadEvent) :
    chunks (failure e :: later) = chunks later := by
  rw [chunks, List.takeWhile_cons_of_pos (by exact he)]
  rfl

/-- Nothing comes after the end. -/
theorem chunks_of_not_lasts {e : ReadEvent} (h : ¬e.lasts) (later : List ReadEvent) :
    chunks (e :: later) = [] := by
  rw [chunks, List.takeWhile_cons_of_neg h]
  rfl

/-- Failures that pass make no difference to the bytes that are read. -/
theorem pieces_reads_chunks (n : Nat) (events : List ReadEvent) :
    Read.pieces (reads n ((chunks events).map data)) = Read.pieces (reads n events) := by
  fun_induction reads n events with
  | case1 =>
    show Read.pieces (reads n []) = _
    rw [reads]
  | case2 e later ih =>
    by_cases he : e.passes
    · rw [chunks_cons_failure he, ih, Read.pieces_cons_error he]
    · rw [Read.pieces_of_not_lasts (by exact he), chunks_of_not_lasts (by exact he), List.map_nil,
        reads, Read.pieces_nil]
  | case3 d later ih =>
    by_cases hd : d = []
    · subst hd
      rw [List.take_nil, Read.pieces_of_not_lasts (by simp [Read.lasts]),
        chunks_of_not_lasts (by simp [lasts]), List.map_nil, reads, Read.pieces_nil]
    · have htake : d.take (max n 1) ≠ [] := by
        have := List.length_pos_iff.2 hd
        refine List.length_pos_iff.1 ?_
        rw [List.length_take]
        omega
      -- what remains of the piece is the first piece of what is still to come
      have hrest : Stream.putBack (d.drop (max n 1)) ((chunks later).map data)
          = (chunks (Stream.putBack (d.drop (max n 1)) later)).map data := by
        rcases d.drop (max n 1) with _ | ⟨b, rest⟩
        · rfl
        · rw [Stream.putBack, Stream.putBack, chunks_cons_data (List.cons_ne_nil b rest),
            List.map_cons]
          all_goals exact List.cons_ne_nil b rest
      rw [chunks_cons_data hd, List.map_cons, reads, hrest, Read.pieces_cons_ok htake,
        Read.pieces_cons_ok htake, ih]

/-- Pieces that are not too long are read whole. -/
theorem pieces_reads_map_data {n : Nat} {ps : List Bytes} (hne : [] ∉ ps)
    (hfit : ∀ d ∈ ps, d.length ≤ max n 1) : Read.pieces (reads n (ps.map data)) = ps := by
  induction ps with
  | nil => rw [List.map_nil, reads, Read.pieces_nil]
  | cons d ps ih =>
    rw [List.mem_cons, not_or] at hne
    rw [List.forall_mem_cons] at hfit
    rw [List.map_cons, reads, List.take_of_length_le hfit.1, List.drop_of_length_le hfit.1,
      Read.pieces_cons_ok (Ne.symm hne.1), Stream.putBack, ih hne.2 hfit.2]

/-- What is read of pieces is all of them. -/
theorem flatten_pieces_reads (n : Nat) {ps : List Bytes} (hne : [] ∉ ps) :
    (Read.pieces (reads n (ps.map data))).flatten = ps.flatten := by
  generalize hevents : ps.map data = events
  fun_induction reads n events generalizing ps with
  | case1 =>
    obtain rfl := List.map_eq_nil_iff.1 hevents
    rfl
  | case2 e later ih =>
    obtain ⟨d, ps, -, hd, -⟩ := List.map_eq_cons_iff.1 hevents
    cases hd
  | case3 d later ih =>
    obtain ⟨d, ps, rfl, hd, rfl⟩ := List.map_eq_cons_iff.1 hevents
    cases hd
    rw [List.mem_cons, not_or] at hne
    have htake : d.take (max n 1) ≠ [] := by
      have := List.length_pos_iff.2 (Ne.symm hne.1)
      refine List.length_pos_iff.1 ?_
      rw [List.length_take]
      omega
    rw [Read.pieces_cons_ok htake, List.flatten_cons, List.flatten_cons]
    rcases hrest : d.drop (max n 1) with _ | ⟨b, rest⟩
    · rw [hrest] at ih
      rw [ih hne.2 rfl, List.take_of_length_le (List.drop_eq_nil_iff.1 hrest)]
    · have hall := List.take_append_drop (max n 1) d
      rw [hrest] at ih hall
      have hne' : [] ∉ (b :: rest) :: ps := by simp [hne.2]
      rw [ih hne' rfl, List.flatten_cons, ← List.append_assoc, hall]

end ReadEvent

/-- The bytes of these pieces as they are read, with so many at a time and at least one. -/
def Bytes.readBy (chunk : Nat) (pieces : List Bytes) : List Bytes :=
  Read.pieces (ReadEvent.reads chunk (pieces.map .data))

theorem Bytes.flatten_readBy (chunk : Nat) {pieces : List Bytes} (hne : [] ∉ pieces) :
    (readBy chunk pieces).flatten = pieces.flatten := ReadEvent.flatten_pieces_reads chunk hne

/-! ## The stream of a transport -/

/-- No write fails but in a way that is tried again, and no flush fails. -/
structure Stream.Writable (s : Stream) : Prop where
  write : ∀ e ∈ s.writeFailures, e.kind = .interrupted
  flush : s.flushFailures = []

namespace Transport

/-- What reading the stream again and again will give, until nothing is left to come. -/
def reads (t : Transport) : List Read :=
  (t.stream.map fun s => ReadEvent.reads t.chunkSize s.incoming).getD []

/-- A read brings no more than what is asked for. -/
theorem length_le_of_mem_reads {t : Transport} {d : Bytes} (h : .ok d ∈ t.reads) :
    d.length ≤ max t.chunkSize 1 := by
  rw [reads] at h
  cases hs : t.stream with
  | none => simp [hs] at h
  | some s =>
    rw [hs] at h
    exact ReadEvent.length_le_of_mem_reads h

/-- When nothing is left to come, the stream is not at its end. -/
def staysOpen (t : Transport) : Bool := (t.stream.map (·.staysOpen)).getD false

/-- What the stream has been given, write by write. -/
def written (t : Transport) : List Bytes := (t.stream.map (·.written)).getD []

/-- There is a stream, and no write and no flush of it fails. -/
def Writable (t : Transport) : Prop := ∃ s, t.stream = some s ∧ s.Writable

/-- The same stream, from which something may have been read and to which something may have been
written. -/
structure SameStream (t t' : Transport) : Prop where
  chunkSize : t'.chunkSize = t.chunkSize
  staysOpen : t'.staysOpen = t.staysOpen
  isOpen : t'.isOpen = t.isOpen
  upgraded : t'.upgraded = t.upgraded
  /-- Writing fails no more than before. -/
  writable : t.Writable → t'.Writable

theorem SameStream.refl (t : Transport) : t.SameStream t := ⟨rfl, rfl, rfl, rfl, id⟩

theorem SameStream.trans {t t' t'' : Transport} (h : t.SameStream t') (h' : t'.SameStream t'') :
    t.SameStream t'' where
  chunkSize := h'.chunkSize.trans h.chunkSize
  staysOpen := h'.staysOpen.trans h.staysOpen
  isOpen := h'.isOpen.trans h.isOpen
  upgraded := h'.upgraded.trans h.upgraded
  writable := h'.writable ∘ h.writable

/-- The same stream, from which the same is still to come. -/
structure SameSource (t t' : Transport) : Prop extends SameStream t t' where
  reads : t'.reads = t.reads

theorem SameSource.refl (t : Transport) : t.SameSource t := ⟨.refl t, rfl⟩

theorem SameSource.trans {t t' t'' : Transport} (h : t.SameSource t') (h' : t'.SameSource t'') :
    t.SameSource t'' :=
  ⟨h.toSameStream.trans h'.toSameStream, h'.reads.trans h.reads⟩

variable {t : Transport}

/-! ### Reading -/

/-- With nothing left to come, a read finds the end or nothing yet, and changes nothing. -/
theorem fill_of_reads_nil {s : Stream} (hs : t.stream = some s) (h : t.reads = []) :
    t.fill = (if t.staysOpen then .error .nothingYet else .ok 0, t) := by
  have hincoming : s.incoming = [] := by
    rw [reads, hs, Option.map_some, Option.getD_some] at h
    rcases hin : s.incoming with _ | ⟨e | e, later⟩
    · rfl
    all_goals
      rw [hin, ReadEvent.reads] at h
      cases h
  have hread : ∀ n, s.read n = (if s.staysOpen then .error .nothingYet else .ok [], s) := by
    intro n
    rw [Stream.read, hincoming]
  obtain ⟨stream, buffer, chunkSize, upgraded⟩ := t
  subst hs
  rw [fill, staysOpen]
  cases hopen : s.staysOpen <;> simp [hread, hopen]

theorem fill_ne_of_reads_nil (h : t.reads = []) {n : Nat} {t' : Transport} :
    t.fill ≠ (.ok (n + 1), t') := by
  rcases hs : t.stream with _ | s
  · rw [fill, hs]
    simp
  · rw [fill_of_reads_nil hs h]
    cases t.staysOpen <;> simp

/-- A transport after a read that gave `r`. -/
structure AfterRead (t : Transport) (r : Read) (rs : List Read) (t' : Transport) : Prop
    extends SameStream t t' where
  buffer : t'.buffer = t.buffer ++ r.toOption.getD []
  reads : t'.reads = rs
  written : t'.written = t.written

/-- A read brings what comes next. -/
theorem fill_of_reads_cons {r : Read} {rs : List Read} (h : t.reads = r :: rs) :
    ∃ t', t.fill = (r.map List.length, t') ∧ t.AfterRead r rs t' := by
  obtain ⟨stream, buffer, chunkSize, upgraded⟩ := t
  cases stream with
  | none => cases h
  | some s =>
    change ReadEvent.reads chunkSize s.incoming = r :: rs at h
    rcases hin : s.incoming with _ | ⟨d | e, later⟩
    · rw [hin, ReadEvent.reads] at h
      cases h
    · rw [hin, ReadEvent.reads] at h
      obtain ⟨rfl, rfl⟩ := List.cons.inj h
      set rest := Stream.putBack (d.drop (max chunkSize 1)) later with hrest
      refine ⟨⟨some { s with incoming := rest }, buffer ++ d.take (max chunkSize 1), chunkSize,
        upgraded⟩, ?_, ⟨rfl, rfl, rfl, rfl, ?_⟩, rfl, rfl, rfl⟩
      · rw [fill]
        simp only [Stream.read, hin, ← hrest]
        rfl
      · rintro ⟨_, heq, hw⟩
        obtain rfl := Option.some.inj heq
        exact ⟨_, rfl, hw.write, hw.flush⟩
    · rw [hin, ReadEvent.reads] at h
      obtain ⟨rfl, rfl⟩ := List.cons.inj h
      refine ⟨⟨some { s with incoming := later }, buffer, chunkSize, upgraded⟩, ?_,
        ⟨rfl, rfl, rfl, rfl, ?_⟩, (List.append_nil _).symm, rfl, rfl⟩
      · rw [fill]
        simp only [Stream.read, hin]
        rfl
      · rintro ⟨_, heq, hw⟩
        obtain rfl := Option.some.inj heq
        exact ⟨_, rfl, hw.write, hw.flush⟩

end Transport

namespace Receiver

variable {γ υ : Type} {G : Grammar γ υ}

/-- Using what has been read changes nothing about what is to come. -/
theorem sameSource_of_receive {r r' : Receiver γ} {t t' : Transport} {o : Reported υ}
    (h : r.receive G t = (o, r', t')) : t.SameSource t' := by
  unfold receive at h
  obtain ⟨-, -, rfl⟩ := by simpa only [Prod.mk.injEq] using h
  exact ⟨⟨rfl, rfl, rfl, rfl, id⟩, rfl⟩

theorem written_of_receive {r r' : Receiver γ} {t t' : Transport} {o : Reported υ}
    (h : r.receive G t = (o, r', t')) : t'.written = t.written := by
  rw [Transport.written, (advance_of_receive h).2, Transport.written]

/-- A receiver that is pumped over a stream reports what its reception does when it is fed the
pieces that are read. -/
theorem map_fst_pump (hG : G.Lawful) (r : Receiver γ) (t : Transport)
    (hok : ∀ rd ∈ t.reads, rd.isOk) :
    (r.pump hG t).map Prod.fst = Reception.feed hG (r.reception t) (Read.pieces t.reads) := by
  fun_induction pump hG r t with
  | case1 r t count r' t' hrec n t'' hfill ih =>
    have hadv := (advance_of_receive hrec).1
    rw [← (sameSource_of_receive hrec).reads] at hok ⊢
    rcases hreads : t'.reads with _ | ⟨rd, rds⟩
    · exact absurd hfill (Transport.fill_ne_of_reads_nil hreads)
    · obtain ⟨t₁, hfill', hafter⟩ := Transport.fill_of_reads_cons hreads
      rw [hfill] at hfill'
      obtain ⟨hlen, rfl⟩ := Prod.mk.inj hfill'
      rw [hreads, List.forall_mem_cons] at hok
      obtain e | d := rd
      · cases hok.1
      · have hd : d ≠ [] := by
          rintro rfl
          cases hlen
        have hext : r'.reception t'' = (r'.reception t').extend d := by
          rw [reception, hafter.buffer]
          rfl
        rw [Read.pieces_cons_ok hd, Reception.feed_of_needMore_cons hG hadv, ← hext, ← hafter.reads]
        exact ih (hafter.reads ▸ hok.2)
  | case2 r t count r' t' hrec hfill =>
    have hadv := (advance_of_receive hrec).1
    rw [← (sameSource_of_receive hrec).reads] at hok ⊢
    have hnone : Read.pieces t'.reads = [] := by
      rcases hreads : t'.reads with _ | ⟨rd, rds⟩
      · rfl
      · -- only the end of the stream can have come
        obtain ⟨t₁, hfill', -⟩ := Transport.fill_of_reads_cons hreads
        rw [hreads, List.forall_mem_cons] at hok
        obtain e | d := rd
        · cases hok.1
        · rcases d with _ | ⟨b, d⟩
          · exact Read.pieces_of_not_lasts (by simp [Read.lasts]) rds
          · exact absurd hfill' (hfill _ _)
    rw [hnone, Reception.feed_of_needMore_nil hG hadv]
    rfl
  | case3 r t unit r' t' hrec ih =>
    have hreads := (sameSource_of_receive hrec).reads
    rw [← hreads] at hok ⊢
    rw [List.map_cons, ih hok]
    exact (Reception.feed_of_report hG (advance_of_receive hrec).1 (by simp) _).symm
  | case4 r t missing goAhead r' t' hrec ih =>
    have hreads := (sameSource_of_receive hrec).reads
    rw [← hreads] at hok ⊢
    rw [List.map_cons, ih hok]
    exact (Reception.feed_of_report hG (advance_of_receive hrec).1 (by simp) _).symm
  | case5 r t report r' t' hrec ih =>
    have hreads := (sameSource_of_receive hrec).reads
    rw [← hreads] at hok ⊢
    rw [List.map_cons, ih hok]
    exact (Reception.feed_of_report hG (advance_of_receive hrec).1 (by simp) _).symm

/-- The reports of a receiver that begins afresh and is pumped over a stream of these pieces, of
which so many bytes are read at a time. -/
def reports (hG : G.Lawful) (g : γ) (chunk : Nat) (pieces : List Bytes) : List (Reported υ) :=
  (pump hG { state := g } (.ofStream (.ofPieces pieces) chunk)).map Prod.fst

theorem reports_eq_feed (hG : G.Lawful) (g : γ) (chunk : Nat) (pieces : List Bytes) :
    reports hG g chunk pieces
      = Reception.feed hG { state := g, buffer := [] } (Bytes.readBy chunk pieces) := by
  refine map_fst_pump hG { state := g } (.ofStream (.ofPieces pieces) chunk) ?_
  refine ReadEvent.isOk_of_mem_reads chunk fun e he => ?_
  obtain ⟨d, -, rfl⟩ := List.mem_map.1 he
  exact ⟨d, rfl⟩

end Receiver

end MailProtocol
