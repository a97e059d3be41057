import MailProtocol.Proofs.Connection.Channel
import MailProtocol.Proofs.Reception.LineLocal

/-!
# Lines on a channel

What a connection at the end of a channel has made of it, if its grammar is line-local and reads the
lines on the channel as units (`Grammar.Lines`). Some first lines have been read, and the units that
they give have been returned or are in the queue (`Session.HasRead`). When all units have been
returned, the connection is as good as new, and goes on in any state of its grammar
(`Session.Fed.anew`).
-/

namespace MailProtocol

variable {γ υ δ ω : Type}

/-- Nothing is there on the stream of the connection, which stays open. -/
structure Connection.Clear (c : Connection γ υ δ) (chunk : Nat) (t : Transport) : Prop where
  link : c.link = .connected t
  writable : t.Writable
  steady : t.Steady
  chunkSize : t.chunkSize = chunk
  buffer : t.buffer = []
  reads : t.reads = []

namespace Session

/-- An open connection with nothing on record. -/
def resume (c : Connection γ υ δ) : Session γ υ δ := { connection := c, input := c.reads }

/-- Of these lines `n` have been read. Their units have been returned or are in the queue. -/
structure HasRead (E : Endpoint γ υ δ ω) (g : γ) (s : Session γ υ δ) (lines : List Bytes)
    (units : List υ) (n : Nat) : Prop where
  le : n ≤ units.length
  results : s.returned ++ s.connection.queue = (units.take n).map .ok
  receiver : s.connection.receiver = { state := E.grammar.after g (lines.take n) }
  goAheadPending : s.connection.goAheadPending = false

variable {E : Endpoint γ υ δ ω} {g : γ} {chunk : Nat} {s : Session γ υ δ} {bytes later : Bytes}
  {lines : List Bytes} {units : List υ}

namespace Fed

/-- Some of the lines have been read. If they are all of the lines, then nothing is left. -/
theorem hasRead (h : Fed E g chunk s bytes) (hlines : E.grammar.Lines g lines units)
    (hbytes : bytes ++ later = lines.flatten) :
    ∃ n, HasRead E g s lines units n
      ∧ (n = units.length → later = [] ∧ ∃ t, s.connection.Clear chunk t) := by
  obtain ⟨t, done, past, hlive, hsteady⟩ := h.live
  have hs : (Read.pieces done).flatten ++ ((Read.pieces t.reads).flatten ++ later)
      = lines.flatten := by
    rw [← hbytes, ← h.bytes, hlive.pieces_input, List.flatten_append, List.append_assoc]
  obtain ⟨first, last, rfl, hresults, hstate, hfragment, hrest⟩ :=
    (Reception.LinesRead.of_runs hlines.lineLocal hlive.runs).of_units hlines hs
  have hlength := hlines.length_eq
  rw [List.length_append] at hlength
  refine ⟨first.length, ⟨by omega, ?_, ?_, ?_⟩, fun hall => ?_⟩
  · rw [← hlive.results, hresults, hlines.answers_left]
  · rw [List.take_left]
    exact congrArg₂ Receiver.mk hstate hfragment
  · obtain ⟨dues, -, howed⟩ := hlive.requests
    rw [hlines.lineLocal.dues_eq_nil hlive.runs, List.append_eq_nil_iff, Connection.owed] at howed
    by_contra hpending
    rw [Bool.not_eq_false] at hpending
    rw [if_pos hpending] at howed
    cases howed.2
  · obtain rfl : last = [] := List.length_eq_zero_iff.1 (by omega)
    obtain ⟨hbuffer, hmore⟩ := List.append_eq_nil_iff.1 hrest
    obtain ⟨hpieces, hlater⟩ := List.append_eq_nil_iff.1 hmore
    exact ⟨hlater, t, hlive.link, hlive.writable, hsteady, hlive.chunkSize, hbuffer,
      hsteady.reads_eq_nil hpieces⟩

/-- What has been returned are the first units. -/
theorem returned_prefix_units (h : Fed E g chunk s bytes) (hlines : E.grammar.Lines g lines units)
    (hbytes : bytes ++ later = lines.flatten) : s.returned <+: units.map .ok := by
  obtain ⟨n, hread, -⟩ := h.hasRead hlines hbytes
  have hresults : s.returned <+: (units.take n).map .ok := ⟨_, hread.results⟩
  exact hresults.trans ((List.take_prefix n units).map _)

/-- When a call hands nothing out, all lines that have arrived have been returned. -/
theorem returned_eq (h : Fed E g chunk s bytes) (hlines : E.grammar.Lines g lines units)
    (hbytes : bytes = lines.flatten)
    (hnone : Connection.returned? (s.connection.receive E).1 = none) :
    s.returned = units.map .ok := by
  have hpieces : (Read.pieces s.input).flatten = lines.flatten := h.bytes.trans hbytes
  obtain ⟨hreturned, -⟩ := h.settled (ω := ω) hnone
  exact hreturned.trans (hlines.results_feed E.lawful hpieces)

/-- The next call returns the unit of the first line of which nothing has been returned. -/
theorem receive_next (h : Fed E g chunk s bytes) (hlines : E.grammar.Lines g lines units)
    (hbytes : bytes = lines.flatten) {before after : List υ} {unit : υ}
    (hunits : units = before ++ unit :: after) (hreturned : s.returned = before.map .ok) :
    (s.connection.receive E).1 = .ok (some unit) := by
  have hprefix : s.returned ++ (Connection.returned? (s.connection.receive E).1).toList
      <+: units.map .ok :=
    h.receive.1.returned_prefix_units (ω := ω) hlines ((List.append_nil bytes).trans hbytes)
  cases hresult : Connection.returned? (s.connection.receive E).1 with
  | none =>
    have hall := h.returned_eq (ω := ω) hlines hbytes hresult
    rw [hreturned, hunits] at hall
    simp at hall
  | some result =>
    rw [hresult, hreturned, hunits, List.map_append, List.prefix_append_right_inj] at hprefix
    obtain rfl : result = .ok unit := (List.cons_prefix_cons.1 hprefix).1
    exact Connection.eq_of_returned? hresult

/-- Every call returns the unit of one line more. -/
theorem receive_receives (h : Fed E g chunk s bytes) (hlines : E.grammar.Lines g lines units)
    (hbytes : bytes = lines.flatten) {done before after : List υ} {unit : υ}
    (hunits : units = done ++ (before ++ unit :: after)) (hreturned : s.returned = done.map .ok) :
    ((s.run E (List.replicate before.length .receive)).connection.receive E).1
      = .ok (some unit) := by
  induction before generalizing s done with
  | nil => exact h.receive_next hlines hbytes hunits hreturned
  | cons next before ih =>
    have hnext := h.receive_next hlines hbytes hunits hreturned
    have hunits' : units = (done ++ [next]) ++ (before ++ unit :: after) := by
      rw [hunits, List.append_assoc]
      rfl
    refine ih h.receive.1 hunits' ?_
    show s.returned ++ (Connection.returned? (s.connection.receive E).1).toList = _
    rw [hnext, hreturned, List.map_append]
    rfl

/-- When all units have been returned, nothing is left, and the connection is as good as new. -/
theorem anew (h : Fed E g chunk s bytes) (hlines : E.grammar.Lines g lines units)
    (hbytes : bytes ++ later = lines.flatten) (hall : s.returned.length = units.length) :
    later = [] ∧ s.connection.queue = [] ∧ ∀ f : γ → γ,
      Fed E (f (E.grammar.after g lines)) chunk (.resume (s.connection.mapState f)) [] := by
  obtain ⟨n, hread, hclear⟩ := h.hasRead hlines hbytes
  have hlength := congrArg List.length hread.results
  rw [List.length_append, List.length_map, List.length_take, hall] at hlength
  have hn : n = units.length := by
    have := hread.le
    omega
  have hqueue : s.connection.queue = [] := List.length_eq_zero_iff.1 (by omega)
  obtain ⟨hlater, t, hclear⟩ := hclear hn
  refine ⟨hlater, hqueue, fun f => ?_⟩
  have hreads : (s.connection.mapState f).reads = [] := by
    rw [Connection.reads, Connection.mapState, hclear.link]
    exact hclear.reads
  have hreceiver : (s.connection.mapState f).receiver
      = { state := f (E.grammar.after g lines) } := by
    rw [Connection.mapState, hread.receiver, List.take_of_length_le]
    rw [hn, hlines.length_eq]
  have hlive : Live E (f (E.grammar.after g lines)) chunk (.resume (s.connection.mapState f)) t []
      [] := {
    link := hclear.link
    writable := hclear.writable
    chunkSize := hclear.chunkSize
    input := hreads.trans hclear.reads.symm
    lasting := List.forall_mem_nil _
    fit := by simp
    runs := by
      show Reception.Runs _ _ _ _ ((s.connection.mapState f).receiver.reception t)
      rw [hreceiver, Receiver.reception, hclear.buffer]
      exact .start
    results := hqueue.symm
    requests := by
      refine ⟨[], rfl, ?_⟩
      show Connection.owed _ _ = []
      rw [Connection.owed]
      exact if_neg (by simpa [resume, Connection.mapState] using hread.goAheadPending) }
  refine ⟨⟨t, [], [], hlive, hclear.steady⟩, ?_⟩
  show (Read.pieces (s.connection.mapState f).reads).flatten = []
  rw [hreads]
  rfl

end Fed

end Session

end MailProtocol
