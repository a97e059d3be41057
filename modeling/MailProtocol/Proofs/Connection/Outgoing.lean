import MailProtocol.Proofs.Connection.GoAhead
import MailProtocol.Proofs.Connection.Survival

/-!
# What is sent

A side that never asks for a literal writes nothing but what its user sends, unit after unit. Of the
units that have been accepted, all but the last are written whole, and the segments of the last one
that are not yet written are those that wait (`Connection.Ledger`). That is so as long as no call
fails to write (`Connection.Unfailing`). After such a failure nothing is ever written again.
-/

namespace MailProtocol

variable {γ υ δ ω : Type}

/-- After these units have been accepted, `output` has been written, and the segments `left` of the
last one are still to be written. -/
inductive Outgoing : (output : Bytes) → (accepted : List Segments) → (left : List Bytes) → Prop
  | nothing : Outgoing [] [] []
  | unit {before : List Segments} {last : Segments} {sent left : List Bytes}
    (hlast : last.toList = sent ++ left) (hsent : sent ≠ []) :
    Outgoing ((before.map Segments.concat).flatten ++ sent.flatten) (before ++ [last]) left

namespace Outgoing

variable {output : Bytes} {accepted : List Segments}

/-- When all that was accepted is written, it is written whole. -/
theorem output_eq (h : Outgoing output accepted []) :
    output = (accepted.map Segments.concat).flatten := by
  cases h with
  | nothing => rfl
  | @unit before last sent _ hlast =>
    have hconcat : last.concat = sent.flatten := by rw [Segments.concat, hlast, List.append_nil]
    rw [List.map_append, List.flatten_append, List.map_singleton, List.flatten_singleton, hconcat]

/-- The next unit is accepted, and its first segment is written. -/
theorem next (h : Outgoing output accepted []) (segments : Segments) :
    Outgoing (output ++ segments.first) (accepted ++ [segments]) segments.rest := by
  have hunit : Outgoing ((accepted.map Segments.concat).flatten ++ [segments.first].flatten)
      (accepted ++ [segments]) segments.rest := .unit rfl (List.cons_ne_nil _ _)
  rwa [List.flatten_singleton, ← h.output_eq] at hunit

/-- The next segment is written. -/
theorem more {segment : Bytes} {left : List Bytes}
    (h : Outgoing output accepted (segment :: left)) :
    Outgoing (output ++ segment) accepted left := by
  cases h with
  | @unit before last sent _ hlast hsent =>
    have hunit : Outgoing ((before.map Segments.concat).flatten ++ (sent ++ [segment]).flatten)
        (before ++ [last]) left :=
      .unit (by rw [hlast, List.append_assoc]; rfl) (List.append_ne_nil_of_left_ne_nil hsent _)
    rwa [List.flatten_append, List.flatten_singleton, ← List.append_assoc] at hunit

end Outgoing

/-- The operation neither replaces the stream nor changes the stream's own record of what it has
been given. -/
def Operation.KeepsStream : Operation γ δ ω → Prop
  | upgrade _ => False
  | meanwhile f => ∀ s, (f s).written = s.written
  | attach _ _ | send _ | sendContinuation | receive | setIdle _ | setWriter _ | mapState _
  | close => True

/-- A stream that the operation brings takes all that is written, and what happens to a stream
leaves it so. -/
def Operation.KeepsWritable : Operation γ δ ω → Prop
  | attach stream _ => stream.Writable
  | upgrade handshake => ∀ stream stream', handshake stream = .ok stream' → stream'.Writable
  | meanwhile f => ∀ s, s.Writable → (f s).Writable
  | send _ | sendContinuation | receive | setIdle _ | setWriter _ | mapState _ | close => True

namespace Connection

variable (E : Endpoint γ υ δ ω)

/-- The segments of the unit that the operation sends, if it is accepted. -/
def accepts (c : Connection γ υ δ) : Operation γ δ ω → List Segments
  | .send unit => if (c.send E unit).1.isOk then [E.write c.writer unit] else []
  | _ => []

/-- The segments of all units that are accepted on the way, in order. -/
def accepted (c : Connection γ υ δ) : List (Operation γ δ ω) → List Segments
  | [] => []
  | op :: ops => c.accepts E op ++ accepted (c.operate E op).2 ops

/-- What the operation sends, if it gets so far. -/
def segment? (c : Connection γ υ δ) : Operation γ δ ω → Option Bytes
  | .send unit => if c.isAwaiting then none else some (E.write c.writer unit).first
  | .sendContinuation => c.pending.head?
  | _ => none

/-- The operation sends something and fails to write it. -/
def FailsToSend (c : Connection γ υ δ) (op : Operation γ δ ω) (e : StreamError) : Prop :=
  ∃ t data, c.link = .connected t ∧ c.segment? E op = some data ∧ t.FailsToWrite data e

/-- None of these operations fails to write what it sends. -/
def Unfailing (c : Connection γ υ δ) : List (Operation γ δ ω) → Prop
  | [] => True
  | op :: ops => (∀ e, ¬c.FailsToSend E op e) ∧ Unfailing (c.operate E op).2 ops

variable {E} {c c' : Connection γ υ δ} {t t' : Transport} {op : Operation γ δ ω} {data : Bytes}

/-! ## What an operation writes -/

/-- Nothing is written and nothing is sent, and the connection is not opened again. -/
structure Silent (c c' : Connection γ υ δ) : Prop where
  output : c'.output = c.output
  pending : c'.link ≠ .closed → c.link ≠ .closed ∧ c'.pending = c.pending

theorem Silent.refl (c : Connection γ υ δ) : c.Silent c := ⟨rfl, fun hopen => ⟨hopen, rfl⟩⟩

theorem Silent.of_shut (hshut : c'.Shut) (houtput : c'.output = c.output) : c.Silent c' :=
  ⟨houtput, fun hopen => absurd hshut.link hopen⟩

theorem silent_upgrade (hc : c.Sound) (handshake : Stream → Except Error Stream) :
    c.Silent (c.upgrade E handshake).2 := by
  rcases hl : c.link with _ | t | _
  · rw [upgrade, hl]
    exact .refl c
  · obtain ⟨stream, hstream⟩ := hc.stream hl
    rcases upgrade_cases E hl hstream handshake with
      ⟨-, heq⟩ | ⟨-, ⟨stream', label, log, -, heq⟩ | ⟨e, c', -, heq, hshut, houtput⟩⟩
    · rw [heq]
      exact .refl c
    · rw [heq]
      exact ⟨rfl, fun _ => ⟨link_ne_closed hl, rfl⟩⟩
    · rw [heq]
      exact .of_shut hshut houtput
  · rw [upgrade, hl]
    exact .refl c

theorem silent_receive (hE : E.grammar.continuationRequest = none) (hc : c.Sound) :
    c.Silent (c.receive E).2 := by
  refine ⟨output_receive hE c, ?_⟩
  rcases hl : c.link.transport? with _ | t
  · obtain ⟨e, heq⟩ := hc.receive_refused E hl
    rw [heq]
    exact fun hopen => ⟨hopen, rfl⟩
  · have hl' := Link.eq_connected hl
    have hopen := link_ne_closed hl'
    rcases moves_or_shut (E := E) hl' with ⟨_, _, _, _, hmoves⟩ | hshut
    · exact fun _ => ⟨hopen, hmoves.settings.pending⟩
    · exact fun hopen' => absurd hshut.link hopen'

theorem send_refused {unit : ω}
    (hop : ∀ t, c.link = .connected t → c.segment? E (.send unit : Operation γ δ ω) = none) :
    ∃ e, c.send E unit = (.error e, c) := by
  rw [send, openError?]
  rcases hl : c.link with _ | t | _
  · exact ⟨_, rfl⟩
  · have hnone := hop t hl
    rw [segment?] at hnone
    split at hnone
    · next hawaiting => exact ⟨_, if_pos hawaiting⟩
    · cases hnone
  · exact ⟨_, rfl⟩

theorem sendContinuation_refused
    (hop : ∀ t, c.link = .connected t →
      c.segment? E (.sendContinuation : Operation γ δ ω) = none) :
    ∃ e, c.sendContinuation E = (.error e, c) := by
  rw [sendContinuation, openError?]
  rcases hl : c.link with _ | t | _
  · exact ⟨_, rfl⟩
  · have hnone : c.pending = [] := List.head?_eq_none_iff.1 (hop t hl)
    simp only [hnone]
    exact ⟨_, rfl⟩
  · exact ⟨_, rfl⟩

/-- What sends nothing is silent, and so is what is refused. -/
theorem silent_operate (hE : E.grammar.continuationRequest = none) (hc : c.Sound)
    (hop : ∀ t, c.link = .connected t → c.segment? E op = none) :
    c.Silent (c.operate E op).2 ∧ c.accepts E op = [] := by
  cases op with
  | attach stream peer =>
    refine ⟨?_, rfl⟩
    unfold operate attach attachError?
    rcases hl : c.link with _ | t | _
    · have hopen : c.link ≠ .closed := by
        intro hclosed
        cases hl.symm.trans hclosed
      exact ⟨rfl, fun _ => ⟨hopen, rfl⟩⟩
    · exact .refl c
    · exact .refl c
  | upgrade handshake => exact ⟨silent_upgrade hc handshake, rfl⟩
  | send unit =>
    obtain ⟨e, heq⟩ := send_refused hop
    rw [operate, accepts, heq]
    exact ⟨.refl c, rfl⟩
  | sendContinuation =>
    obtain ⟨e, heq⟩ := sendContinuation_refused hop
    rw [operate, heq]
    exact ⟨.refl c, rfl⟩
  | receive => exact ⟨silent_receive hE hc, rfl⟩
  | setIdle | setWriter | mapState => exact ⟨⟨rfl, fun hopen => ⟨hopen, rfl⟩⟩, rfl⟩
  | close =>
    obtain ⟨hshut, houtput⟩ := shut_close E c
    exact ⟨.of_shut hshut houtput, rfl⟩
  | meanwhile f =>
    refine ⟨?_, rfl⟩
    rw [operate, mapStream]
    split
    · next t hl => exact ⟨rfl, fun _ => ⟨link_ne_closed hl, rfl⟩⟩
    · exact .refl c

/-- There is something that the operation sends, and a stream to send it, or not. -/
theorem segment_cases (E : Endpoint γ υ δ ω) (c : Connection γ υ δ) (op : Operation γ δ ω) :
    (∃ t data, c.link = .connected t ∧ c.segment? E op = some data)
      ∨ ∀ t, c.link = .connected t → c.segment? E op = none := by
  rcases hop : c.segment? E op with _ | data
  · exact .inr fun _ _ => rfl
  · rcases hl : c.link with _ | t | _
    · exact .inr nofun
    · exact .inl ⟨t, data, rfl, rfl⟩
    · exact .inr nofun

/-- What sends a segment is writing it, and then the segments after it wait. -/
theorem exists_sendSegment (hl : c.link = .connected t) (hop : c.segment? E op = some data) :
    ∃ left, c.operate E op
        = ((c.sendSegment E data left).1.map fun _ => (), (c.sendSegment E data left).2)
      ∧ ((c.sendSegment E data left).1.isOk → ∀ output accepted,
        Outgoing output accepted c.pending →
          Outgoing (output ++ data) (accepted ++ c.accepts E op) left) := by
  have hopen : c.openError? = none := by rw [openError?, hl]
  cases op with
  | send unit =>
    rw [segment?] at hop
    split at hop
    · cases hop
    · next hawaiting =>
      obtain rfl := Option.some.inj hop
      -- the unit before has been sent whole, or this one would have been refused
      have hpending : c.pending = [] := by simpa [isAwaiting] using hawaiting
      have hsend : c.send E unit = c.sendSegment E (E.write c.writer unit).first
          (E.write c.writer unit).rest := by
        rw [send, hopen]
        exact if_neg hawaiting
      refine ⟨(E.write c.writer unit).rest, ?_, fun hok output accepted h => ?_⟩
      · rw [operate, hsend]
      · rw [accepts, hsend, if_pos hok]
        exact (hpending ▸ h).next _
  | sendContinuation =>
    obtain ⟨left, hpending⟩ : ∃ left, c.pending = data :: left := by
      rw [segment?, List.head?_eq_some_iff] at hop
      exact hop
    have hsend : c.sendContinuation E = c.sendSegment E data left := by
      rw [sendContinuation, hopen, hpending]
    refine ⟨left, ?_, fun _ output accepted h => ?_⟩
    · rw [operate, hsend]
    · show Outgoing _ (accepted ++ []) left
      rw [List.append_nil]
      exact (hpending ▸ h).more
  | attach | upgrade | receive | setIdle | setWriter | mapState | close | meanwhile => cases hop

/-- The segment is written, or writing it fails. -/
theorem sends_operate (hl : c.link = .connected t) (hop : c.segment? E op = some data) :
    (∃ t' left, c.operate E op = (.ok (), { c with
          link := .connected t', output := c.output ++ data.asWrites, pending := left })
        ∧ t.Written data.asWrites t' ∧ ∀ output accepted, Outgoing output accepted c.pending →
          Outgoing (output ++ data) (accepted ++ c.accepts E op) left)
      ∨ ∃ e, c.FailsToSend E op e := by
  obtain ⟨left, hsends, hgoes⟩ := exists_sendSegment hl hop
  rcases sendSegment_cases E hl data left with ⟨t', heq, hwritten⟩ | ⟨e, c', -, hbreaks⟩
  · rw [heq] at hsends hgoes
    exact .inl ⟨t', left, hsends, hwritten, hgoes rfl⟩
  · exact .inr ⟨e, t, data, hl, hop, hbreaks.fails⟩

/-- If writing the segment fails, then the connection is closed. -/
theorem shut_of_failsToSend {e : StreamError} (h : c.FailsToSend E op e) :
    (c.operate E op).1 = .error e.ofWrite ∧ (c.operate E op).2.Shut := by
  obtain ⟨t, data, hl, hop, hfails⟩ := h
  obtain ⟨left, hsends, -⟩ := exists_sendSegment hl hop
  obtain ⟨c', heq, hshut⟩ := sendSegment_of_fails E hl hfails left
  rw [hsends, heq]
  exact ⟨rfl, hshut⟩

/-- Where every unit is a single segment, none is left to wait. -/
theorem pending_operate (hE : E.grammar.continuationRequest = none)
    (hsingle : ∀ writer unit, (E.write writer unit).rest = []) (hc : c.Sound)
    (hpending : c.pending = []) : (c.operate E op).2.pending = [] := by
  rcases segment_cases E c op with ⟨t, data, hl, hop⟩ | hnone
  · cases op with
    | send unit =>
      have hsend : c.send E unit = c.sendSegment E (E.write c.writer unit).first [] := by
        rw [send, openError?, hl, ← hsingle c.writer unit]
        exact if_neg (by simp [isAwaiting, hpending])
      rw [operate, hsend]
      rcases sendSegment_cases E hl (E.write c.writer unit).first [] with
        ⟨t', heq, -⟩ | ⟨e, c', heq, hbreaks⟩ <;> rw [heq]
      exact hbreaks.shut.pending
    | sendContinuation =>
      rw [segment?, hpending] at hop
      cases hop
    | attach | upgrade | receive | setIdle | setWriter | mapState | close | meanwhile => cases hop
  · obtain ⟨hsilent, -⟩ := silent_operate hE hc hnone
    by_cases hclosed : (c.operate E op).2.link = .closed
    · have hcleared := ((acts_operate E hc op).sound hc).cleared_of_link (by rw [hclosed]; rfl)
      exact hcleared.pending
    · exact (hsilent.pending hclosed).2.trans hpending

theorem pending_run (hE : E.grammar.continuationRequest = none)
    (hsingle : ∀ writer unit, (E.write writer unit).rest = []) (hc : c.Sound)
    (hpending : c.pending = []) (ops : List (Operation γ δ ω)) : (c.run E ops).pending = [] := by
  induction ops generalizing c with
  | nil => exact hpending
  | cons op ops ih =>
    exact ih ((acts_operate E hc op).sound hc) (pending_operate hE hsingle hc hpending)

/-- What the connection records to have written is what its stream is given. -/
theorem written_operate (hop : op.KeepsStream) (hl : c.link = .connected t)
    (hl' : (c.operate E op).2.link = .connected t') :
    ∃ writes, (c.operate E op).2.output = c.output ++ writes
      ∧ t'.written = t.written ++ writes := by
  have hsame (hwritten : t'.written = t.written) (houtput : (c.operate E op).2.output = c.output) :
      ∃ writes, (c.operate E op).2.output = c.output ++ writes
        ∧ t'.written = t.written ++ writes :=
    Moves.written_of_silent houtput hwritten
  have hrefused (heq : (c.operate E op).2 = c) :
      ∃ writes, (c.operate E op).2.output = c.output ++ writes
        ∧ t'.written = t.written ++ writes := by
    rw [heq, hl] at hl'
    obtain rfl := Link.connected.inj hl'
    exact hsame rfl (by rw [heq])
  rcases hsegment : c.segment? E op with _ | data
  · cases op with
    | attach stream peer =>
      refine hrefused ?_
      unfold operate attach attachError?
      rw [hl]
    | upgrade => exact hop.elim
    | send unit =>
      obtain ⟨e, heq⟩ := send_refused fun _ _ => hsegment
      refine hrefused ?_
      rw [operate, heq]
    | sendContinuation =>
      obtain ⟨e, heq⟩ := sendContinuation_refused fun _ _ => hsegment
      refine hrefused ?_
      rw [operate, heq]
    | receive =>
      rw [operate] at hl' ⊢
      rcases moves_or_shut (E := E) hl with ⟨_, _, _, _, hmoves⟩ | hshut
      · obtain rfl := Link.connected.inj (hmoves.link.symm.trans hl')
        exact hmoves.written
      · have hclosed := hshut.link.symm.trans hl'
        cases hclosed
    | setIdle | setWriter | mapState =>
      obtain rfl := Link.connected.inj (hl.symm.trans hl')
      exact hsame rfl rfl
    | close => cases hl'
    | meanwhile f =>
      have hmap : (c.operate E (.meanwhile f : Operation γ δ ω)).2
          = { c with link := .connected (t.mapStream f) } := by
        rw [operate, mapStream, hl]
      rw [hmap] at hl'
      obtain rfl := Link.connected.inj hl'
      refine hsame ?_ (by rw [hmap])
      rw [Transport.written, Transport.mapStream, Transport.written, Option.map_map]
      exact congrArg (fun written => (t.stream.map written).getD []) (funext hop)
  · rcases sends_operate hl hsegment with ⟨t'', left, heq, hwritten, -⟩ | ⟨e, hfails⟩
    · rw [heq] at hl' ⊢
      obtain rfl := Link.connected.inj hl'
      exact ⟨_, rfl, hwritten.written⟩
    · have hclosed := (shut_of_failsToSend hfails).2.link.symm.trans hl'
      cases hclosed

/-! ## How far a unit has been sent -/

theorem outcome_sendSegment {segment : Bytes} {left : List Bytes} {outcome : SendOutcome}
    (hl : c.link = .connected t) (h : (c.sendSegment E segment left).1 = .ok outcome) :
    outcome = .awaiting ↔ left ≠ [] := by
  rcases sendSegment_cases E hl segment left with ⟨t', heq, -⟩ | ⟨e, c', heq, -⟩
  · rw [heq] at h
    rw [← Except.ok.inj h]
    cases left <;> simp
  · rw [heq] at h
    cases h

/-- The rest of a unit waits just if there is any. -/
theorem outcome_send {unit : ω} {outcome : SendOutcome} (h : (c.send E unit).1 = .ok outcome) :
    outcome = .awaiting ↔ (E.write c.writer unit).rest ≠ [] := by
  rw [send, openError?] at h
  rcases hl : c.link with _ | t | _ <;> rw [hl] at h
  · cases h
  · simp only at h
    split at h
    · cases h
    · exact outcome_sendSegment hl h
  · cases h

theorem outcome_sendContinuation {outcome : SendOutcome}
    (h : (c.sendContinuation E).1 = .ok outcome) :
    outcome = .awaiting ↔ c.pending.tail ≠ [] := by
  rw [sendContinuation, openError?] at h
  rcases hl : c.link with _ | t | _ <;> rw [hl] at h
  · cases h
  · simp only at h
    rcases hpending : c.pending with _ | ⟨segment, left⟩ <;> rw [hpending] at h
    · cases h
    · exact outcome_sendSegment hl h
  · cases h

/-! ## Any row of operations -/

/-- What has been written of the accepted units, and that the segments which are left of the last
one are those that wait, unless the connection is closed. -/
def Ledger (c : Connection γ υ δ) (accepted : List Segments) : Prop :=
  ∃ left, Outgoing c.output.flatten accepted left ∧ (c.link ≠ .closed → c.pending = left)

namespace Ledger

variable {accepted : List Segments}

theorem new (label : LogLabel) (chunkSize : Nat) (state : γ) (writer : δ) :
    (Connection.new label chunkSize state writer : Connection γ υ δ).Ledger [] :=
  ⟨[], .nothing, fun _ => rfl⟩

theorem operate (hE : E.grammar.continuationRequest = none) (hc : c.Sound) (h : c.Ledger accepted)
    (hfine : ∀ e, ¬c.FailsToSend E op e) :
    (c.operate E op).2.Ledger (accepted ++ c.accepts E op) := by
  obtain ⟨left, houtgoing, hpending⟩ := h
  -- the ledger moves on with a segment, and with nothing else
  rcases segment_cases E c op with ⟨t, data, hl, hop⟩ | hnone
  · have hopen := link_ne_closed hl
    rcases sends_operate hl hop with ⟨t', left', heq, -, hgoes⟩ | ⟨e, hfails⟩
    · rw [heq]
      refine ⟨left', ?_, fun _ => rfl⟩
      rw [List.flatten_append, Bytes.flatten_asWrites]
      exact hgoes _ _ ((hpending hopen).symm ▸ houtgoing)
    · exact absurd hfails (hfine e)
  · obtain ⟨hsilent, haccepts⟩ := silent_operate hE hc hnone
    rw [haccepts, List.append_nil]
    refine ⟨left, hsilent.output ▸ houtgoing, fun hopen' => ?_⟩
    obtain ⟨hopen, hsame⟩ := hsilent.pending hopen'
    exact hsame.trans (hpending hopen)

theorem run (hE : E.grammar.continuationRequest = none) (hc : c.Sound) (h : c.Ledger accepted)
    {ops : List (Operation γ δ ω)} (hfine : c.Unfailing E ops) :
    (c.run E ops).Ledger (accepted ++ c.accepted E ops) := by
  induction ops generalizing c accepted with
  | nil => exact (List.append_nil accepted).symm ▸ h
  | cons op ops ih =>
    rw [Connection.accepted, ← List.append_assoc]
    exact ih ((acts_operate E hc op).sound hc) (h.operate hE hc hfine.1) hfine.2

end Ledger

/-- The stream of the connection, while there is one, takes all that is written. -/
def Writable (c : Connection γ υ δ) : Prop := ∀ t, c.link = .connected t → t.Writable

theorem Writable.of_link (hl : c.link = .connected t) (hw : t.Writable) : c.Writable :=
  fun _ hl' => Link.connected.inj (hl.symm.trans hl') ▸ hw

theorem Writable.of_shut (h : c.Shut) : c.Writable := fun _ hl => nomatch h.link.symm.trans hl

theorem writable_segment (hw : c.Writable) (hl : c.link = .connected t)
    (hop : c.segment? E op = some data) : (c.operate E op).2.Writable := by
  rcases sends_operate hl hop with ⟨t', left, heq, hwritten, -⟩ | ⟨e, hfails⟩
  · rw [heq]
    exact .of_link rfl (hwritten.writable (hw t hl))
  · exact .of_shut (shut_of_failsToSend hfails).2

theorem writable_receive (hc : c.Sound) (hw : c.Writable) : (c.receive E).2.Writable := by
  rcases hl : c.link.transport? with _ | t
  · obtain ⟨e, heq⟩ := hc.receive_refused E hl
    rw [heq]
    exact hw
  · have hl' := Link.eq_connected hl
    rcases moves_or_shut (E := E) hl' with ⟨_, _, _, _, hmoves⟩ | hshut
    · exact .of_link hmoves.link (hmoves.writable (hw t hl'))
    · exact .of_shut hshut

/-- Replacing the stream fails, or leads to a stream that takes all that is written, too. -/
theorem writable_upgrade (hc : c.Sound) (hw : c.Writable) {handshake : Stream → Except Error Stream}
    (hkeeps : ∀ stream stream', handshake stream = .ok stream' → stream'.Writable) :
    (c.upgrade E handshake).2.Writable := by
  rcases hl : c.link with _ | t | _
  · rw [upgrade, hl]
    exact hw
  · obtain ⟨stream, hstream⟩ := hc.stream hl
    rcases upgrade_cases E hl hstream handshake with
      ⟨-, heq⟩ | ⟨-, ⟨stream', label, log, hshake, heq⟩ | ⟨e, c', -, heq, hshut, -⟩⟩
    · rw [heq]
      exact hw
    · rw [heq]
      exact .of_link rfl ⟨stream', rfl, hkeeps stream stream' hshake⟩
    · rw [heq]
      exact .of_shut hshut
  · rw [upgrade, hl]
    exact hw

/-- As long as no operation brings a stream of which a write or a flush fails, none fails. -/
theorem writable_operate (hc : c.Sound) (hw : c.Writable) (hop : op.KeepsWritable) :
    (c.operate E op).2.Writable := by
  rcases segment_cases E c op with ⟨t, data, hl, hsegment⟩ | hnone
  · exact writable_segment hw hl hsegment
  cases op with
  | attach stream peer =>
    unfold operate attach attachError?
    rcases hl : c.link with _ | t | _
    · exact .of_link rfl ⟨stream, rfl, hop⟩
    · exact hw
    · exact hw
  | upgrade handshake => exact writable_upgrade hc hw hop
  | send unit =>
    obtain ⟨e, heq⟩ := send_refused hnone
    rw [operate, heq]
    exact hw
  | sendContinuation =>
    obtain ⟨e, heq⟩ := sendContinuation_refused hnone
    rw [operate, heq]
    exact hw
  | receive => exact writable_receive hc hw
  | setIdle | setWriter | mapState => exact hw
  | close => exact .of_shut (shut_close E c).1
  | meanwhile f =>
    rw [operate, mapStream]
    split
    · next t hl =>
      obtain ⟨stream, hstream, hwritable⟩ := hw t hl
      refine .of_link rfl ⟨f stream, ?_, hop stream hwritable⟩
      rw [Transport.mapStream, hstream]
      rfl
    · exact hw

/-- On streams that take all that is written no call fails to write. -/
theorem unfailing_of_writable (hc : c.Sound) (hw : c.Writable) {ops : List (Operation γ δ ω)}
    (hops : ∀ op ∈ ops, op.KeepsWritable) : c.Unfailing E ops := by
  induction ops generalizing c with
  | nil => exact trivial
  | cons op ops ih =>
    rw [List.forall_mem_cons] at hops
    refine ⟨?_, ih ((acts_operate E hc op).sound hc) (writable_operate hc hw hops.1) hops.2⟩
    rintro e ⟨t, data, hl, -, hfails⟩
    exact hfails.not_writable (hw t hl)

end Connection

namespace Imap

/-- What a client has written in any row of operations without a failure to write are the commands
that were accepted, one whole command after another, except that of the last one some segments may
be left. It awaits a continuation just if some are, unless it is closed. Each call of sending says
so too. When a write fails, nothing is ever written again. -/
theorem client_output_run (config : Config) (id : String)
    (ops : List (Operation Bool Command.Writer Command)) :
    let E := clientEndpoint config
    let start := clientConnection config id
    let c := start.run E ops
    (start.Unfailing E ops → ∃ left, Outgoing c.output.flatten (start.accepted E ops) left
        ∧ (c.lifecycle ≠ .closed → (c.isAwaiting ↔ left ≠ []))
        ∧ (∀ command outcome, (c.send E command).1 = .ok outcome →
          (outcome = .awaiting ↔ (E.write c.writer command).rest ≠ []))
        ∧ ∀ outcome, (c.sendContinuation E).1 = .ok outcome →
          (outcome = .awaiting ↔ left.tail ≠ []))
      ∧ (∀ op e, c.FailsToSend E op e → (c.operate E op).1 = .error e.ofWrite
        ∧ ∀ later, ((c.operate E op).2.run E later).output = (c.operate E op).2.output)
      ∧ ∀ op t t', op.KeepsStream → c.link = .connected t →
        (c.operate E op).2.link = .connected t' →
        ∃ writes, (c.operate E op).2.output = c.output ++ writes
          ∧ t'.written = t.written ++ writes := by
  intro E start c
  refine ⟨fun hfine => ?_, fun op e hfails => ?_, fun op t t' hop hl hl' => ?_⟩
  · have hsound : start.Sound := .new _ _ _ _
    obtain ⟨left, houtgoing, hpending⟩ :=
      (Connection.Ledger.new _ _ _ _ : start.Ledger []).run rfl hsound hfine
    refine ⟨left, houtgoing, fun hopen => ?_, fun _ _ => Connection.outcome_send,
      fun outcome hok => ?_⟩
    · have hlink : c.link ≠ .closed := fun hclosed => hopen (congrArg Link.lifecycle hclosed)
      rw [Connection.isAwaiting, hpending hlink]
      cases left <;> simp
    · have hlink : c.link ≠ .closed := by
        intro hclosed
        rw [Connection.sendContinuation, Connection.openError?, hclosed] at hok
        cases hok
      rw [← hpending hlink]
      exact Connection.outcome_sendContinuation hok
  · obtain ⟨herror, hshut⟩ := Connection.shut_of_failsToSend hfails
    exact ⟨herror, fun later => (hshut.run E later).2⟩
  · exact Connection.written_operate hop hl hl'

/-- A client sends a literal when it has been asked, and then a command without a wait. -/
theorem client_output_run_login :
    let stream : Stream := { incoming := [.data (Bytes.ascii "+ go\r\n")], staysOpen := true }
    let login (tag : String) : Command := {
      tag := Bytes.ascii tag, verb := Bytes.ascii "LOGIN"
      args := [.literal (Bytes.ascii "joe") false] }
    let ops : List (Operation Bool Command.Writer Command) := [.attach stream none,
      .send (login "a"), .send (login "b"), .receive, .sendContinuation,
      .setWriter { literalPlus := true }, .send (login "c")]
    let start := clientConnection {} "1"
    (∃ left, Outgoing (start.run (clientEndpoint {}) ops).output.flatten
        (start.accepted (clientEndpoint {}) ops) left)
      ∧ (start.run (clientEndpoint {}) ops).output.flatten
        = Bytes.ascii "a LOGIN \x7b3\x7d\r\njoe\r\nc LOGIN \x7b3+\x7d\r\njoe\r\n" := by
  intro stream login ops start
  have hw : stream.Writable := ⟨List.forall_mem_nil _, rfl⟩
  have hops : ∀ op ∈ ops, op.KeepsWritable := by
    simp only [ops, List.forall_mem_cons]
    exact ⟨hw, trivial, trivial, trivial, trivial, trivial, trivial, List.forall_mem_nil _⟩
  have hfine : start.Unfailing (clientEndpoint {}) ops :=
    Connection.unfailing_of_writable (.new _ _ _ _) nofun hops
  obtain ⟨left, houtgoing, -⟩ := (client_output_run {} "1" ops).1 hfine
  exact ⟨⟨left, houtgoing⟩, by decide +kernel⟩

end Imap

end MailProtocol
