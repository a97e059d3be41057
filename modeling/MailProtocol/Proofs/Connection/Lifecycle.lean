import MailProtocol.Proofs.Connection.Session

/-!
# The life of a connection

An `Operation` is whatever its user can do with a connection, or the other end with its stream.
`Connection.Acts` says what an operation can do: it is refused and changes nothing, it leaves the
connection where it stands, it leads it one step on in its life, or it shuts it. All that makes a
connection sound (`Connection.Sound`) follows from that, after any row of operations
(`Connection.sound_run`).
-/

namespace MailProtocol

variable {γ υ δ ω : Type}

/-! ## Operations -/

/-- What is done to a connection. -/
inductive Operation (γ δ ω : Type) where
  | attach (stream : Stream) (peer : Option String)
  | upgrade (handshake : Stream → Except Error Stream)
  | send (unit : ω)
  | sendContinuation
  | receive
  | setIdle (idle : Bool)
  | setWriter (writer : δ)
  | mapState (f : γ → γ)
  | close
  /-- Whatever happens to the stream without the connection. -/
  | meanwhile (f : Stream → Stream)

namespace Connection

/-- A connection before it has a stream. -/
def new (label : LogLabel) (chunkSize : Nat) (state : γ) (writer : δ) : Connection γ υ δ :=
  { label, chunkSize, receiver := { state }, writer }

variable (E : Endpoint γ υ δ ω)

/-- Whether an operation fails, and the connection after it. -/
def operate (c : Connection γ υ δ) : Operation γ δ ω → Except Error Unit × Connection γ υ δ
  | .attach stream peer => c.attach stream peer
  | .upgrade handshake => c.upgrade E handshake
  | .send unit => ((c.send E unit).1.map fun _ => (), (c.send E unit).2)
  | .sendContinuation => ((c.sendContinuation E).1.map fun _ => (), (c.sendContinuation E).2)
  | .receive => ((c.receive E).1.map fun _ => (), (c.receive E).2)
  | .setIdle idle => (.ok (), { c with idle })
  | .setWriter writer => (.ok (), c.setWriter writer)
  | .mapState f => (.ok (), c.mapState f)
  | .close => (.ok (), c.close E)
  | .meanwhile f => (.ok (), c.mapStream f)

/-- The connection after these operations. -/
def run (c : Connection γ υ δ) (ops : List (Operation γ δ ω)) : Connection γ υ δ :=
  ops.foldl (fun c op => (c.operate E op).2) c

end Connection

/-- The operation was called at the wrong time, on a connection that is not closed. -/
def Error.isMisuse : Error → Bool
  | .notConnected | .alreadyConnected | .alreadyUpgraded | .continuationPending
  | .noContinuation => true
  | _ => false

theorem Error.not_isMisuse_of_isEnd {e : Error} (h : e.isEnd) : e.isMisuse = false := by
  cases e <;> first | rfl | cases h

theorem StreamError.not_isMisuse_ofWrite (e : StreamError) : e.ofWrite.isMisuse = false := by
  rw [ofWrite]
  split <;> rfl

/-! ## Standing in life -/

/-- One step in the life of a connection. -/
inductive Lifecycle.Step : Lifecycle → Lifecycle → Prop
  | stay (l : Lifecycle) : Step l l
  | connect : Step .unconnected .connected
  | upgrade : Step .connected .upgraded
  | close (l : Lifecycle) : Step l .closed

/-- Nothing leads back from the end. -/
theorem Lifecycle.Step.eq_closed {l : Lifecycle} (h : Step .closed l) : l = .closed := by
  cases h <;> rfl

namespace Link

theorem eq_connected {l : Link} {t : Transport} (h : l.transport? = some t) : l = .connected t := by
  rcases l with _ | t' | _
  · cases h
  · exact congrArg connected (Option.some.inj h)
  · cases h

theorem eq_unconnected {l : Link} (h : l.lifecycle = .unconnected) : l = .unconnected := by
  rcases l with _ | t | _
  · rfl
  · rw [lifecycle] at h
    split at h <;> cases h
  · cases h

end Link

namespace Connection

/-- What is true of a connection at any time. -/
structure Sound (c : Connection γ υ δ) : Prop where
  /-- The transport has a stream. -/
  isOpen : ∀ t, c.link.transport? = some t → t.isOpen
  owing : c.Owing
  /-- A connection that is not open has nothing to hand out, to send or to go on with. -/
  cleared : c.lifecycle = .unconnected ∨ c.lifecycle = .closed → c.Cleared

theorem link_ne_closed {c : Connection γ υ δ} {t : Transport} (hl : c.link = .connected t) :
    c.link ≠ .closed := by
  intro hclosed
  cases hl.symm.trans hclosed

/-- The two connections stand at the same place, with the same to hand out and to send. -/
structure SameStanding (c c' : Connection γ υ δ) : Prop where
  queue : c'.queue = c.queue
  pending : c'.pending = c.pending
  goAheadPending : c'.goAheadPending = c.goAheadPending
  fragment : c'.receiver.fragment = c.receiver.fragment

theorem SameStanding.owing {c c' : Connection γ υ δ} (h : c.SameStanding c') (howing : c.Owing) :
    c'.Owing := by
  intro hpending
  rw [h.fragment]
  exact howing (h.goAheadPending ▸ hpending)

theorem SameStanding.cleared {c c' : Connection γ υ δ} (h : c.SameStanding c')
    (hcleared : c.Cleared) : c'.Cleared :=
  ⟨h.queue.trans hcleared.queue, h.pending.trans hcleared.pending,
    h.goAheadPending.trans hcleared.goAheadPending, h.fragment.trans hcleared.fragment⟩

theorem Cleared.owing {c : Connection γ υ δ} (h : c.Cleared) : c.Owing := by
  intro hpending
  rw [h.goAheadPending] at hpending
  cases hpending

namespace Sound

variable {c c' : Connection γ υ δ} {t : Transport}

theorem of_connected (hl : c.link = .connected t) (hopen : t.isOpen) (howing : c.Owing) :
    c.Sound where
  isOpen := by
    rw [hl]
    intro t' ht'
    obtain rfl := Option.some.inj ht'
    exact hopen
  owing := howing
  cleared := by
    rw [lifecycle, hl, Link.lifecycle]
    split <;> rintro (h | h) <;> cases h

theorem of_cleared (hl : c.link.transport? = none) (h : c.Cleared) : c.Sound where
  isOpen := by
    rw [hl]
    exact nofun
  owing := h.owing
  cleared := fun _ => h

theorem of_shut (h : c.Shut) : c.Sound := .of_cleared (by rw [h.link]; rfl) h.toCleared

theorem new (label : LogLabel) (chunkSize : Nat) (state : γ) (writer : δ) :
    (Connection.new label chunkSize state writer : Connection γ υ δ).Sound :=
  .of_cleared rfl ⟨rfl, rfl, rfl, rfl⟩

theorem stream (h : c.Sound) (hl : c.link = .connected t) : ∃ s, t.stream = some s := by
  have hopen := h.isOpen t (by rw [hl]; rfl)
  exact Option.isSome_iff_exists.1 hopen

theorem cleared_of_link (h : c.Sound) (hl : c.link.transport? = none) : c.Cleared := by
  refine h.cleared ?_
  rcases hlink : c.link with _ | t | _
  · exact .inl (by rw [lifecycle, hlink]; rfl)
  · rw [hlink] at hl
    cases hl
  · exact .inr (by rw [lifecycle, hlink]; rfl)

/-- A connection that is not open hands nothing out. -/
theorem receive_refused (E : Endpoint γ υ δ ω) (h : c.Sound) (hl : c.link.transport? = none) :
    ∃ e, c.receive E = (.error e, c) := by
  have hqueue := (h.cleared_of_link hl).queue
  rw [receive, hqueue, openError?]
  rcases hlink : c.link with _ | t | _
  · exact ⟨.notConnected, rfl⟩
  · rw [hlink] at hl
    cases hl
  · exact ⟨.closed, rfl⟩

end Sound

/-! ## What an operation does -/

/-- The handshake is tried, and fails with `e`. -/
def FailedHandshake (c : Connection γ υ δ) (op : Operation γ δ ω) (e : Error) : Prop :=
  ∃ handshake t stream, op = .upgrade handshake ∧ c.link = .connected t ∧ t.upgraded = false
    ∧ t.stream = some stream ∧ handshake stream = .error e

/-- What an operation can do to a connection. -/
inductive Acts (c : Connection γ υ δ) (op : Operation γ δ ω) :
    Except Error Unit × Connection γ υ δ → Prop
  | refused {e : Error} : Acts c op (.error e, c)
  /-- Only settings change. -/
  | settles {c' : Connection γ υ δ} (hlink : c'.link = c.link) (hsame : c.SameStanding c') :
    Acts c op (.ok (), c')
  | connects {c' : Connection γ υ δ} {t : Transport} (hl : c.link = .unconnected)
    (hl' : c'.link = .connected t) (hopen : t.isOpen) (hupgraded : t.upgraded = false)
    (hsame : c.SameStanding c') : Acts c op (.ok (), c')
  | upgrades {c' : Connection γ υ δ} {t t' : Transport} (hl : c.link = .connected t)
    (hl' : c'.link = .connected t') (hopen : t'.isOpen) (hupgraded : t.upgraded = false)
    (hupgraded' : t'.upgraded) (hsame : c.SameStanding c') : Acts c op (.ok (), c')
  /-- The connection stays open. -/
  | goesOn {r : Except Error Unit} {c' : Connection γ υ δ} {t t' : Transport}
    (hl : c.link = .connected t) (hl' : c'.link = .connected t') (hopen : t'.isOpen = t.isOpen)
    (hupgraded : t'.upgraded = t.upgraded) (howing : c.Owing → c'.Owing)
    (hr : ∀ e, r = .error e → e.isMisuse = false) : Acts c op (r, c')
  /-- The connection is closed. -/
  | shuts {r : Except Error Unit} {c' : Connection γ υ δ} (hshut : c'.Shut)
    (hr : ∀ e, r = .error e → e.isMisuse = false ∧ c.link ≠ .closed ∨ c.FailedHandshake op e) :
    Acts c op (r, c')

namespace Acts

variable {c : Connection γ υ δ} {op : Operation γ δ ω} {b : Except Error Unit × Connection γ υ δ}

theorem sound (h : Acts c op b) (hc : c.Sound) : b.2.Sound := by
  cases h with
  | refused => exact hc
  | @settles c' hlink hsame =>
    rcases hl : c.link with _ | t | _
    · exact .of_cleared (by rw [hlink, hl]; rfl)
        (hsame.cleared (hc.cleared_of_link (by rw [hl]; rfl)))
    · exact .of_connected (hlink.trans hl) (hc.isOpen t (by rw [hl]; rfl)) (hsame.owing hc.owing)
    · exact .of_cleared (by rw [hlink, hl]; rfl)
        (hsame.cleared (hc.cleared_of_link (by rw [hl]; rfl)))
  | connects _ hl' hopen _ hsame => exact .of_connected hl' hopen (hsame.owing hc.owing)
  | upgrades _ hl' hopen _ _ hsame => exact .of_connected hl' hopen (hsame.owing hc.owing)
  | goesOn hl hl' hopen _ howing =>
    exact .of_connected hl' (hopen ▸ hc.isOpen _ (by rw [hl]; rfl)) (howing hc.owing)
  | shuts hshut => exact .of_shut hshut

theorem step (h : Acts c op b) : Lifecycle.Step c.lifecycle b.2.lifecycle := by
  cases h with
  | refused => exact .stay _
  | settles hlink =>
    rw [lifecycle, lifecycle, hlink]
    exact .stay _
  | connects hl hl' _ hupgraded =>
    rw [lifecycle, lifecycle, hl, hl', Link.lifecycle, Link.lifecycle, hupgraded]
    exact .connect
  | upgrades hl hl' _ hupgraded hupgraded' =>
    rw [lifecycle, lifecycle, hl, hl', Link.lifecycle, Link.lifecycle, hupgraded, hupgraded']
    exact .upgrade
  | goesOn hl hl' _ hupgraded =>
    rw [lifecycle, lifecycle, hl, hl', Link.lifecycle, Link.lifecycle, hupgraded]
    exact .stay _
  | shuts hshut =>
    rw [lifecycle, lifecycle, hshut.link]
    exact .close _

/-- What comes too early or too late changes nothing. -/
theorem unchanged (h : Acts c op b) {e : Error} (hb : b.1 = .error e)
    (he : e.isMisuse ∨ e = .closed ∧ c.lifecycle = .closed) :
    b.2 = c ∨ c.FailedHandshake op e ∧ b.2.Shut := by
  -- what is refused at the wrong time is never what an open connection closes with
  have hmisuse : e.isMisuse = false → c.link ≠ .closed → False := by
    intro hnot hopen
    rcases he with he | ⟨-, hclosed⟩
    · exact Bool.false_ne_true (hnot.symm.trans he)
    · rcases hl : c.link with _ | t | _
      · rw [lifecycle, hl] at hclosed
        cases hclosed
      · rw [lifecycle, hl, Link.lifecycle] at hclosed
        split at hclosed <;> cases hclosed
      · exact hopen hl
  cases h with
  | refused => exact .inl rfl
  | settles | connects | upgrades => cases hb
  | goesOn hl _ _ _ _ hr => exact (hmisuse (hr e hb) (link_ne_closed hl)).elim
  | shuts hshut hr =>
    rcases hr e hb with ⟨hnot, hopen⟩ | hfailed
    · exact (hmisuse hnot hopen).elim
    · exact .inr ⟨hfailed, hshut⟩

end Acts

section
variable (E : Endpoint γ υ δ ω) {c : Connection γ υ δ} {t : Transport}

theorem acts_attach (c : Connection γ υ δ) (stream : Stream) (peer : Option String) :
    Acts c (.attach stream peer : Operation γ δ ω) (c.attach stream peer) := by
  unfold attach attachError?
  rcases hl : c.link with _ | t | _
  · exact .connects hl rfl rfl rfl ⟨rfl, rfl, rfl, rfl⟩
  · exact .refused
  · exact .refused

theorem acts_upgrade (hc : c.Sound) (handshake : Stream → Except Error Stream) :
    Acts c (.upgrade handshake : Operation γ δ ω) (c.upgrade E handshake) := by
  rcases hl : c.link with _ | t | _
  · rw [upgrade, hl]
    exact .refused
  · obtain ⟨stream, hstream⟩ := hc.stream hl
    rcases upgrade_cases E hl hstream handshake with
      ⟨-, heq⟩ | ⟨hupgraded, ⟨stream', label, log, -, heq⟩ | ⟨e, c', hshake, heq, hshut, -⟩⟩
    · rw [heq]
      exact .refused
    · rw [heq]
      exact .upgrades hl rfl rfl hupgraded rfl ⟨rfl, rfl, rfl, rfl⟩
    · -- the handshake has used up the stream, so its error is told from those of a wrong call
      rw [heq]
      refine .shuts hshut fun e' he' => .inr ⟨handshake, t, stream, rfl, hl, hupgraded, hstream, ?_⟩
      rw [hshake, Except.error.inj he']
  · rw [upgrade, hl]
    exact .refused

/-- Writing a segment leaves the connection open, or fails and closes it. -/
theorem acts_sendSegment (hl : c.link = .connected t) (op : Operation γ δ ω) (segment : Bytes)
    (pending : List Bytes) :
    Acts c op ((c.sendSegment E segment pending).1.map fun _ => (),
      (c.sendSegment E segment pending).2) := by
  rcases sendSegment_cases E hl segment pending with ⟨t', heq, hwritten⟩ | ⟨e, c', heq, hbreaks⟩
  · rw [heq]
    exact .goesOn hl rfl hwritten.isOpen hwritten.upgraded id nofun
  · rw [heq]
    refine .shuts hbreaks.shut fun e' he' => .inl ⟨?_, link_ne_closed hl⟩
    rw [← Except.error.inj he']
    exact e.not_isMisuse_ofWrite

theorem acts_send (c : Connection γ υ δ) (unit : ω) :
    Acts c (.send unit : Operation γ δ ω)
      ((c.send E unit).1.map fun _ => (), (c.send E unit).2) := by
  rw [send, openError?]
  rcases hl : c.link with _ | t | _
  · exact .refused
  · simp only
    split
    · exact .refused
    · exact acts_sendSegment E hl ..
  · exact .refused

theorem acts_sendContinuation (c : Connection γ υ δ) :
    Acts c (.sendContinuation : Operation γ δ ω)
      ((c.sendContinuation E).1.map fun _ => (), (c.sendContinuation E).2) := by
  rw [sendContinuation, openError?]
  rcases hl : c.link with _ | t | _
  · exact .refused
  · simp only
    split
    · exact .refused
    · exact acts_sendSegment E hl ..
  · exact .refused

theorem acts_receive (hc : c.Sound) :
    Acts c (.receive : Operation γ δ ω) ((c.receive E).1.map fun _ => (), (c.receive E).2) := by
  rcases hl : c.link.transport? with _ | t
  · obtain ⟨e, heq⟩ := hc.receive_refused E hl
    rw [heq]
    exact .refused
  · have hl' := Link.eq_connected hl
    have hopen := link_ne_closed hl'
    rcases receive_cases (E := E) hl' with h | h
    · generalize c.receive E = b at h
      cases h with
      | @handed result rs os c' t' hmoves =>
        refine .goesOn hl' hmoves.link hmoves.isOpen hmoves.upgraded hmoves.owing ?_
        intro e he
        cases result <;> cases he
        rfl
      | blocked hmoves =>
        refine .goesOn hl' hmoves.link hmoves.isOpen hmoves.upgraded hmoves.owing ?_
        intro e he
        cases hidle : c.idle <;> rw [hidle] at he <;> cases he
        rfl
      | ended _ _ _ _ _ he hshut =>
        refine .shuts hshut fun e' he' => .inl ⟨?_, hopen⟩
        rw [← Except.error.inj he']
        exact Error.not_isMisuse_of_isEnd he
    · generalize c.receive E = b at h
      obtain ⟨-, -, -, -, hbreaks⟩ := h
      refine .shuts hbreaks.shut fun e' he' => .inl ⟨?_, hopen⟩
      rw [← Except.error.inj he']
      exact StreamError.not_isMisuse_ofWrite _

theorem acts_meanwhile (c : Connection γ υ δ) (f : Stream → Stream) :
    Acts c (.meanwhile f : Operation γ δ ω) (.ok (), c.mapStream f) := by
  rw [mapStream]
  rcases hl : c.link with _ | t | _
  · exact .settles rfl ⟨rfl, rfl, rfl, rfl⟩
  · exact .goesOn hl rfl Option.isSome_map rfl id nofun
  · exact .settles rfl ⟨rfl, rfl, rfl, rfl⟩

/-- Every operation does one of these. -/
theorem acts_operate (hc : c.Sound) (op : Operation γ δ ω) : Acts c op (c.operate E op) := by
  cases op with
  | attach stream peer => exact acts_attach c stream peer
  | upgrade handshake => exact acts_upgrade E hc handshake
  | send unit => exact acts_send E c unit
  | sendContinuation => exact acts_sendContinuation E c
  | receive => exact acts_receive E hc
  | setIdle | setWriter | mapState => exact .settles rfl ⟨rfl, rfl, rfl, rfl⟩
  | close => exact .shuts (shut_close E c).1 nofun
  | meanwhile f => exact acts_meanwhile c f

theorem sound_run (hc : c.Sound) (ops : List (Operation γ δ ω)) : (c.run E ops).Sound := by
  induction ops generalizing c with
  | nil => exact hc
  | cons op ops ih => exact ih ((acts_operate E hc op).sound hc)

end

/-- The calls of a session are operations on its connection. -/
theorem run_receives (E : Endpoint γ υ δ ω) (s : Session γ υ δ) (n : Nat) :
    s.connection.run E (List.replicate n .receive)
      = (s.run E (List.replicate n .receive)).connection := by
  induction n generalizing s with
  | zero => rfl
  | succ n ih => exact ih (s.perform E .receive)

end Connection

end MailProtocol
