import MailProtocol.Proofs.Connection.Lifecycle
import Mathlib.Logic.Relation

/-!
# What operations are made of

Whatever an operation does to the label, the link, the receiver and the log of a connection, it does
in small steps, each of which makes one use of the stream or of the receiver or writes one line of
the log (`Connection.Edit`). `Connection.edits_operate` takes every operation apart into such edits,
so what each edit keeps is kept by any row of operations.
-/

namespace MailProtocol

variable {γ υ δ ω : Type}

/-- One use of the stream, and whether it fails. -/
inductive Transport.Uses (t : Transport) : Except StreamError Unit → Transport → Prop
  | fill : Uses t (t.fill.1.map fun _ => ()) t.fill.2
  | writeAll (data : Bytes) : Uses t (t.writeAll data).1 (t.writeAll data).2
  | flush : Uses t t.flush.1 t.flush.2

namespace Connection

/-- What the log says of the life of a connection. -/
def lifeRemarks : List String :=
  ["Connected", "Connection closed", "Stream upgraded", "EOF from peer"]

/-- What the log says when the stream fails, before the reason. -/
def failureRemarks : List String := ["Read failed: ", "Write failed: "]

/-- One of the steps that an operation is made of. -/
inductive Edit (E : Endpoint γ υ δ ω) (op : Operation γ δ ω) (c : Connection γ υ δ) :
    Connection γ υ δ → Prop
  /-- Other parts of the connection change. -/
  | aside {c' : Connection γ υ δ} (hlabel : c'.label = c.label) (hlink : c'.link = c.link)
    (hreceiver : c'.receiver = c.receiver) (hlog : c'.log = c.log) : Edit E op c c'
  | remark {text : String} (h : text ∈ lifeRemarks) : Edit E op c (c.info text)
  | attach {stream : Stream} {peer : Option String} (hop : op = .attach stream peer) :
    Edit E op c { c with
      label := peer.elim c.label c.label.setPeer
      link := .connected (.ofStream stream c.chunkSize) }
  | upgrade {handshake : Stream → Except Error Stream} {t t' : Transport}
    (hop : op = .upgrade handshake) (hl : c.link = .connected t)
    (h : t.upgrade handshake = (.ok (), t')) :
    Edit E op c { c with link := .connected t', label := c.label.setTls true }
  | upgradeFails {handshake : Stream → Except Error Stream} {t t' : Transport} {e : Error}
    (hop : op = .upgrade handshake) (hl : c.link = .connected t)
    (h : t.upgrade handshake = (.error e, t')) :
    Edit E op c ({ c with link := .connected t' }.warn ("Stream upgrade failed: " ++ e.message))
  | meanwhile {f : Stream → Stream} {t : Transport} (hop : op = .meanwhile f)
    (hl : c.link = .connected t) : Edit E op c { c with link := .connected (t.mapStream f) }
  | mapState {f : γ → γ} (hop : op = .mapState f) : Edit E op c (c.mapState f)
  /-- The stream is used. -/
  | uses {t t' : Transport} {o : Except StreamError Unit} (hl : c.link = .connected t)
    (h : t.Uses o t') : Edit E op c { c with link := .connected t' }
  /-- The stream is used and fails, and the log says so. -/
  | useFails {t t' : Transport} {e : StreamError} {remark : String} (hl : c.link = .connected t)
    (h : t.Uses (.error e) t') (hremark : remark ∈ failureRemarks) :
    Edit E op c ({ c with link := .connected t' }.warn (remark ++ e.text))
  /-- The receiver is asked. -/
  | receives {t t' : Transport} {r : Receiver γ} {o : Outcome υ} (hl : c.link = .connected t)
    (h : c.receiver.receive E.grammar t = (.ok o, r, t')) :
    Edit E op c { c with link := .connected t', receiver := r }
  /-- The receiver is asked and refuses, and the log says so. -/
  | refuses {t t' : Transport} {r : Receiver γ} {m : Malformed} (hl : c.link = .connected t)
    (h : c.receiver.receive E.grammar t = (.error m, r, t')) :
    Edit E op c ({ c with link := .connected t', receiver := r }.warnMalformed m)
  | close : Edit E op c { c with link := .closed, receiver := c.receiver.reset E.grammar }

/-- Any number of edits. -/
abbrev Edits (E : Endpoint γ υ δ ω) (op : Operation γ δ ω) :
    Connection γ υ δ → Connection γ υ δ → Prop :=
  Relation.ReflTransGen (Edit E op)

variable {E : Endpoint γ υ δ ω} {op : Operation γ δ ω} {c : Connection γ υ δ}

theorem Edit.edits {c' : Connection γ υ δ} (h : Edit E op c c') : Edits E op c c' := .single h

theorem edits_aside {c' : Connection γ υ δ} (hlabel : c'.label = c.label) (hlink : c'.link = c.link)
    (hreceiver : c'.receiver = c.receiver) (hlog : c'.log = c.log) : Edits E op c c' :=
  (Edit.aside hlabel hlink hreceiver hlog).edits

/-! ## Closing and writing -/

theorem edits_close (c : Connection γ υ δ) : Edits E op c (c.close E) := by
  have hclose (c : Connection γ υ δ) : Edits E op c { c with
      link := .closed
      receiver := c.receiver.reset E.grammar
      queue := []
      pending := []
      goAheadPending := false } := (Edit.close).edits.tail (.aside rfl rfl rfl rfl)
  rw [close]
  split
  · exact .head (.remark (by decide)) (hclose _)
  · exact hclose c

/-- What has failed is written into the log, and the connection is closed. -/
theorem edits_failure {t t' : Transport} {e : StreamError} {remark : String}
    (hl : c.link = .connected t) (h : t.Uses (.error e) t') (hremark : remark ∈ failureRemarks) :
    Edits E op c (({ c with link := .connected t' }.warn (remark ++ e.text)).close E) :=
  .head (.useFails hl h hremark) (edits_close _)

theorem edits_transmit (c : Connection γ υ δ) (data : Bytes) :
    Edits E op c (c.transmit E data).2 := by
  unfold transmit
  split
  · exact .refl
  · exact .refl
  · next t hl =>
    split
    · next e t' hwrite =>
      have huse := Transport.Uses.writeAll (t := t) data
      rw [hwrite] at huse
      exact edits_failure hl huse (by decide)
    · next t' hwrite =>
      have huse := Transport.Uses.writeAll (t := t) data
      rw [hwrite] at huse
      generalize (if data.isEmpty then c.output else c.output ++ [data]) = output
      -- the write is recorded before the flush
      have hwritten : Edits E op c { c with link := .connected t', output } :=
        (Edit.uses hl huse).edits.tail (.aside rfl rfl rfl rfl)
      have hflush := Transport.Uses.flush (t := t')
      rcases hf : t'.flush with ⟨e | _, t''⟩
      · rw [hf] at hflush
        exact hwritten.trans (edits_failure rfl hflush (by decide))
      · rw [hf] at hflush
        exact hwritten.tail (.uses rfl hflush)

theorem edits_sendSegment (c : Connection γ υ δ) (segment : Bytes) (pending : List Bytes) :
    Edits E op c (c.sendSegment E segment pending).2 := by
  have htransmit : Edits E op c _ := edits_transmit c segment
  unfold sendSegment
  rcases hwrite : c.transmit E segment with ⟨e | _, c'⟩
  · rw [hwrite] at htransmit
    exact htransmit
  · rw [hwrite] at htransmit
    exact htransmit.tail (.aside rfl rfl rfl rfl)

theorem edits_send (c : Connection γ υ δ) (unit : ω) : Edits E op c (c.send E unit).2 := by
  unfold send
  split
  · exact .refl
  · split
    · exact .refl
    · exact edits_sendSegment c _ _

theorem edits_sendContinuation (c : Connection γ υ δ) :
    Edits E op c (c.sendContinuation E).2 := by
  unfold sendContinuation
  split
  · exact .refl
  · split
    · exact .refl
    · exact edits_sendSegment c _ _

/-! ## Receiving -/

theorem edits_sendGoAhead (c : Connection γ υ δ) : Edits E op c (c.sendGoAhead E).2 := by
  unfold sendGoAhead
  split
  · exact .refl
  · exact edits_transmit c _

theorem edits_settleGoAhead (c : Connection γ υ δ) : Edits E op c (c.settleGoAhead E).2 := by
  unfold settleGoAhead
  split
  · have haside : Edits E op c { c with goAheadPending := false } := edits_aside rfl rfl rfl rfl
    exact haside.trans (edits_sendGoAhead _)
  · exact .refl

theorem edits_fill (c : Connection γ υ δ) : Edits E op c (c.fill E).2 := by
  unfold fill
  split
  · exact .refl
  · exact .refl
  · next t hl =>
    have huse := Transport.Uses.fill (t := t)
    rcases hfill : t.fill with ⟨e | n, t'⟩
    · rw [hfill] at huse
      dsimp only
      split
      · exact (Edit.uses hl huse).edits
      · split
        · exact (Edit.uses hl huse).edits
        · exact edits_failure hl huse (by decide)
    · rw [hfill] at huse
      dsimp only
      split
      · exact .head (.uses hl huse) (.head (.remark (by decide)) (edits_close _))
      · exact (Edit.uses hl huse).edits

/-- Where one step of waiting comes to. -/
def polled (b : Connection γ υ δ ⊕ Polled γ υ δ) : Connection γ υ δ := b.elim id Prod.snd

theorem edits_poll (c : Connection γ υ δ) : Edits E op c (polled (c.poll E)) := by
  unfold poll
  split
  · exact .refl
  · exact .refl
  · next t hl =>
    rcases hreceive : c.receiver.receive E.grammar t with ⟨m | unit | n | ⟨n, goAhead⟩, r, t'⟩
    · exact (Edit.refuses hl hreceive).edits
    · exact (Edit.receives hl hreceive).edits
    · have hread : Edits E op { c with receiver := r, link := .connected t' } _ := edits_fill _
      refine .head (.receives hl hreceive) ?_
      dsimp only
      rcases hfill : fill E { c with receiver := r, link := .connected t' } with
        ⟨e | (_ | _), c'⟩ <;>
      · rw [hfill] at hread
        exact hread
    · have hgo : Edits E op { c with receiver := r, link := .connected t' } _ :=
        edits_sendGoAhead _
      refine .head (.receives hl hreceive) ?_
      cases goAhead with
      | false => exact .refl
      | true =>
        dsimp only
        rcases hsend : sendGoAhead E { c with receiver := r, link := .connected t' } with
          ⟨e | _, c'⟩ <;>
        · rw [hsend] at hgo
          exact hgo

theorem edits_wait (c : Connection γ υ δ) : Edits E op c (c.wait E).2 := by
  -- wherever the polling has come to, only edits have led there
  refine iterate_induction (P := fun c' => Edits E op c c')
    (Q := fun b : Polled γ υ δ => Edits E op c b.2) ?_ ?_ c .refl
  · intro c₁ c₂ h hpoll
    have hnext : Edits E op c₁ _ := edits_poll c₁
    rw [hpoll] at hnext
    exact h.trans hnext
  · intro c₁ b h hpoll
    have hnext : Edits E op c₁ _ := edits_poll c₁
    rw [hpoll] at hnext
    exact h.trans hnext

/-- What has become of the connection `c` when so much has been drained. -/
def drainedSoFar (c : Connection γ υ δ) (t : Transport)
    (a : List (Except Malformed υ) × Reception γ) : Connection γ υ δ :=
  { a.1.reverse.foldl warnResult c with
    link := .connected { t with buffer := a.2.buffer }
    receiver := .ofReception a.2 }

theorem drainedSoFar_cons (c : Connection γ υ δ) (t : Transport) (result : Except Malformed υ)
    (results : List (Except Malformed υ)) (a : Reception γ) :
    drainedSoFar c t (result :: results, a)
      = { warnResult (results.reverse.foldl warnResult c) result with
          link := .connected { t with buffer := a.buffer }
          receiver := .ofReception a } := by
  simp only [drainedSoFar, List.reverse_cons, List.foldl_append, List.foldl_cons, List.foldl_nil]

/-- The receiver is asked once more while the buffer is drained. -/
theorem receive_drainedSoFar (c : Connection γ υ δ) (t : Transport)
    (results : List (Except Malformed υ)) {a a' : Reception γ} {o : Except Malformed (Outcome υ)}
    (h : Reception.advance E.grammar a = (o, a')) :
    (drainedSoFar c t (results, a)).receiver.receive E.grammar { t with buffer := a.buffer }
      = (o, .ofReception a', { t with buffer := a'.buffer }) := by
  have hsame : (Receiver.ofReception a).reception { t with buffer := a.buffer } = a := rfl
  rw [drainedSoFar, Receiver.receive, hsame, h]

/-- Each result that is drained is one edit, and what stops the draining is the last. -/
theorem edits_drained (op : Operation γ δ ω) (c : Connection γ υ δ) {t : Transport}
    (hl : c.link = .connected t) :
    let d := Reception.drain E.lawful (c.receiver.reception t)
    Edits E op c { drainedSoFar c t (d.1.reverse, d.2.2) with
      goAheadPending := d.2.1
      queue := (d.1.foldl warnResult c).queue ++ d.1 } := by
  -- the connection does not change while its buffer is drained, but it would have come about by
  -- edits if each result were put into its place at once
  refine iterate_induction (P := fun a => Edits E op c (drainedSoFar c t a))
    (Q := fun d : Reception.Drained γ υ => Edits E op c
      { drainedSoFar c t (d.1.reverse, d.2.2) with
        goAheadPending := d.2.1
        queue := (d.1.foldl warnResult c).queue ++ d.1 }) ?_ ?_ ([], c.receiver.reception t) ?_
  · rintro ⟨results, a⟩ b hedits hstep
    unfold Reception.drainStep at hstep
    split at hstep
    · next unit a' hadv =>
      obtain rfl := Sum.inl.inj hstep
      rw [drainedSoFar_cons]
      exact hedits.tail (.receives rfl (receive_drainedSoFar c t results hadv))
    · next report a' hadv =>
      obtain rfl := Sum.inl.inj hstep
      rw [drainedSoFar_cons]
      exact hedits.tail (.refuses rfl (receive_drainedSoFar c t results hadv))
    · cases hstep
    · cases hstep
  · rintro ⟨results, a⟩ d hedits hstep
    unfold Reception.drainStep at hstep
    split at hstep
    · cases hstep
    · cases hstep
    · next n goAhead a' hadv =>
      obtain rfl := Sum.inr.inj hstep
      rw [List.reverse_reverse]
      exact (hedits.tail (.receives rfl (receive_drainedSoFar c t results hadv))).tail
        (.aside rfl rfl rfl rfl)
    · next n a' hadv =>
      obtain rfl := Sum.inr.inj hstep
      rw [List.reverse_reverse]
      exact (hedits.tail (.receives rfl (receive_drainedSoFar c t results hadv))).tail
        (.aside rfl rfl rfl rfl)
  · exact edits_aside rfl hl.symm rfl rfl

theorem edits_drain (c : Connection γ υ δ) : Edits E op c (c.drain E) := by
  rcases hl : c.link with _ | t | _
  · rw [drain, hl]
  · have hdrained := edits_drained (E := E) op c hl
    simp only [drainedSoFar, List.reverse_reverse] at hdrained
    rw [drain, hl]
    exact hdrained
  · rw [drain, hl]

theorem edits_takeQueued (c : Connection γ υ δ) : Edits E op c c.takeQueued.2 := by
  unfold takeQueued
  split
  · exact .refl
  · dsimp only
    split <;> exact edits_aside rfl rfl rfl rfl

theorem edits_fetch (c : Connection γ υ δ) : Edits E op c (c.fetch E).2 := by
  have hwait : Edits E op c _ := edits_wait c
  unfold fetch
  rcases hw : c.wait E with ⟨e | (_ | result), c'⟩
  · rw [hw] at hwait
    exact hwait
  · rw [hw] at hwait
    exact hwait
  · rw [hw] at hwait
    have hqueued : Edits E op c' { c' with queue := c'.queue ++ [result] } :=
      edits_aside rfl rfl rfl rfl
    exact hwait.trans (hqueued.trans ((edits_drain _).trans (edits_takeQueued _)))

theorem edits_receive (c : Connection γ υ δ) : Edits E op c (c.receive E).2 := by
  have hsettle : Edits E op c _ := edits_settleGoAhead c
  unfold receive
  split
  · exact edits_takeQueued c
  · split
    · exact .refl
    · rcases hs : c.settleGoAhead E with ⟨e | _, c'⟩
      · rw [hs] at hsettle
        exact hsettle
      · rw [hs] at hsettle
        exact hsettle.trans (edits_fetch c')

/-! ## All operations -/

theorem edits_attach (c : Connection γ υ δ) (stream : Stream) (peer : Option String) :
    Edits E (.attach stream peer) c (c.attach stream peer).2 := by
  unfold attach
  split
  · exact .refl
  · refine .head (.attach rfl) ?_
    cases peer <;> exact (Edit.remark (by decide)).edits

theorem edits_upgrade (c : Connection γ υ δ) (handshake : Stream → Except Error Stream) :
    Edits E (.upgrade handshake) c (c.upgrade E handshake).2 := by
  unfold upgrade
  split
  · exact .refl
  · exact .refl
  · next t hl =>
    split
    · exact .refl
    · rcases hup : t.upgrade handshake with ⟨e | _, t'⟩
      · exact .head (.upgradeFails rfl hl hup) (edits_close _)
      · exact .head (.upgrade rfl hl hup) (Edit.remark (by decide)).edits

/-- Every operation is made of edits. -/
theorem edits_operate (E : Endpoint γ υ δ ω) (c : Connection γ υ δ) (op : Operation γ δ ω) :
    Edits E op c (c.operate E op).2 := by
  cases op with
  | attach stream peer => exact edits_attach c stream peer
  | upgrade handshake => exact edits_upgrade c handshake
  | send unit => exact edits_send c unit
  | sendContinuation => exact edits_sendContinuation c
  | receive => exact edits_receive c
  | setIdle | setWriter => exact edits_aside rfl rfl rfl rfl
  | mapState f => exact (Edit.mapState rfl).edits
  | close => exact edits_close c
  | meanwhile f =>
    rcases hl : c.link with _ | t | _
    · rw [operate, mapStream, hl]
    · have hedit := Edit.meanwhile (E := E) rfl hl (f := f)
      rw [operate, mapStream, hl]
      exact hedit.edits
    · rw [operate, mapStream, hl]

/-- What every edit keeps is kept by every operation. -/
theorem Edits.keeps {P : Connection γ υ δ → Prop} {c c' : Connection γ υ δ} (h : Edits E op c c')
    (hP : ∀ c c', P c → Edit E op c c' → P c') (hc : P c) : P c' := by
  induction h with
  | refl => exact hc
  | tail _ hedit ih => exact hP _ _ ih hedit

end Connection

end MailProtocol
