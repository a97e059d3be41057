import MailProtocol.Proofs.Connection.Edits
import MailProtocol.Proofs.Reception.Faults

/-!
# Log lines that nobody forges

Each line of a connection's log is a label and one of a few remarks (`LogLine.Body`). Names get into
the label and refused bytes into the remark, but neither brings a control character along, so a peer
can begin no line of its own. What streams and handshakes say of their failures is trusted to be
plain (`Operation.FailsPlainly`).

The invariant (`Connection.Guarded`) is kept by each edit that an operation is made of and by each
change of the label, so it holds in whatever order these come, in the midst of operations too.
-/

namespace MailProtocol

open Text (Plain plain_of_visible)

variable {γ υ δ ω : Type}

/-! ## Streams that fail in plain words -/

/-- If there is a failure, its words are plain. -/
def FailedPlainly {α : Type} (o : Except StreamError α) : Prop := ∀ e, o = .error e → Plain e.text

theorem failedPlainly_error {α : Type} {e : StreamError} :
    FailedPlainly (.error e : Except StreamError α) ↔ Plain e.text := by
  constructor
  · exact fun h => h e rfl
  · exact fun h e' he => Except.error.inj he ▸ h

theorem failedPlainly_ok {α : Type} (a : α) : FailedPlainly (.ok a : Except StreamError α) := by
  intro e he
  cases he

/-- If a read is to fail, it fails in plain words. -/
def ReadEvent.FailsPlainly : ReadEvent → Prop
  | .data _ => True
  | .failure e => Plain e.text

/-- The failures that the stream is going to report are worded plainly. -/
structure Stream.FailsPlainly (s : Stream) : Prop where
  reads : ∀ event ∈ s.incoming, event.FailsPlainly
  writes : ∀ e ∈ s.writeFailures, Plain e.text
  flushes : ∀ e ∈ s.flushFailures, Plain e.text

namespace Stream.FailsPlainly

variable {s : Stream}

theorem read (h : s.FailsPlainly) (n : Nat) :
    FailedPlainly (s.read n).1 ∧ (s.read n).2.FailsPlainly := by
  have hreads := h.reads
  unfold Stream.read
  split
  · refine ⟨?_, h⟩
    split
    · exact failedPlainly_error.2 (by decide)
    · exact failedPlainly_ok _
  · next hin =>
    rw [hin, List.forall_mem_cons] at hreads
    exact ⟨failedPlainly_error.2 hreads.1, { h with reads := hreads.2 }⟩
  · next d later hin =>
    rw [hin, List.forall_mem_cons] at hreads
    refine ⟨failedPlainly_ok _, { h with reads := ?_ }⟩
    unfold putBack
    split
    · exact hreads.2
    · exact List.forall_mem_cons.2 ⟨trivial, hreads.2⟩

theorem writeAll (h : s.FailsPlainly) (data : Bytes) :
    FailedPlainly (s.writeAll data).1 ∧ (s.writeAll data).2.FailsPlainly := by
  unfold Stream.writeAll
  split
  · exact ⟨failedPlainly_ok _, h⟩
  · split
    · exact ⟨failedPlainly_ok _, { h with }⟩
    · exact ⟨failedPlainly_ok _, { h with writes := nofun }⟩
    · next e later _ hfailures =>
      -- failures that only interrupt are passed over
      have hwrites : ∀ e' ∈ e :: later, Plain e'.text := fun e' he' =>
        h.writes e' ((List.dropWhile_suffix _).subset (hfailures ▸ he'))
      rw [List.forall_mem_cons] at hwrites
      exact ⟨failedPlainly_error.2 hwrites.1, { h with writes := hwrites.2 }⟩

theorem flush (h : s.FailsPlainly) : FailedPlainly s.flush.1 ∧ s.flush.2.FailsPlainly := by
  have hflushes := h.flushes
  unfold Stream.flush
  split
  · exact ⟨failedPlainly_ok _, { h with }⟩
  · exact ⟨failedPlainly_ok _, h⟩
  · next hfailures =>
    rw [hfailures, List.forall_mem_cons] at hflushes
    exact ⟨failedPlainly_error.2 hflushes.1, { h with flushes := hflushes.2 }⟩

end Stream.FailsPlainly

/-- The handshake makes of such a stream another one, or says plainly why it cannot. -/
def FailsPlainlyWith (handshake : Stream → Except Error Stream) : Prop :=
  ∀ s, s.FailsPlainly → (∀ e, handshake s = .error e → Plain e.message)
    ∧ ∀ s', handshake s = .ok s' → s'.FailsPlainly

namespace Transport

/-- The stream, while there is one, fails in plain words. -/
def FailsPlainly (t : Transport) : Prop := ∀ s, t.stream = some s → s.FailsPlainly

variable {t t' : Transport}

theorem FailsPlainly.of_stream {s : Stream} (h : s.FailsPlainly) (hs : t.stream = some s) :
    t.FailsPlainly := fun _ hs' => Option.some.inj (hs.symm.trans hs') ▸ h

theorem FailsPlainly.fill (ht : t.FailsPlainly) :
    FailedPlainly (t.fill.1.map fun _ => ()) ∧ t.fill.2.FailsPlainly := by
  unfold Transport.fill
  split
  · exact ⟨failedPlainly_error.2 (by decide), ht⟩
  · next s hs =>
    have hread := (ht s hs).read (max t.chunkSize 1)
    split
    · next hout =>
      rw [hout] at hread
      exact ⟨failedPlainly_error.2 (failedPlainly_error.1 hread.1), .of_stream hread.2 rfl⟩
    · next hout =>
      rw [hout] at hread
      exact ⟨failedPlainly_ok _, .of_stream hread.2 rfl⟩

theorem FailsPlainly.writeAll (ht : t.FailsPlainly) (data : Bytes) :
    FailedPlainly (t.writeAll data).1 ∧ (t.writeAll data).2.FailsPlainly := by
  unfold Transport.writeAll
  split
  · exact ⟨failedPlainly_error.2 (by decide), ht⟩
  · next s hs =>
    have hwrite := (ht s hs).writeAll data
    exact ⟨hwrite.1, .of_stream hwrite.2 rfl⟩

theorem FailsPlainly.flush (ht : t.FailsPlainly) :
    FailedPlainly t.flush.1 ∧ t.flush.2.FailsPlainly := by
  unfold Transport.flush
  split
  · exact ⟨failedPlainly_error.2 (by decide), ht⟩
  · next s hs =>
    have hflush := (ht s hs).flush
    exact ⟨hflush.1, .of_stream hflush.2 rfl⟩

theorem Uses.failsPlainly {o : Except StreamError Unit} (h : t.Uses o t') (ht : t.FailsPlainly) :
    FailedPlainly o ∧ t'.FailsPlainly := by
  cases h with
  | fill => exact ht.fill
  | writeAll data => exact ht.writeAll data
  | flush => exact ht.flush

theorem FailsPlainly.upgrade {handshake : Stream → Except Error Stream}
    (hplain : FailsPlainlyWith handshake) (ht : t.FailsPlainly) :
    (∀ e, (t.upgrade handshake).1 = .error e → Plain e.message)
      ∧ (t.upgrade handshake).2.FailsPlainly := by
  have herror {e : Error} (h : Plain e.message) :
      ∀ e', (.error e : Except Error Unit) = .error e' → Plain e'.message :=
    fun _ he => Except.error.inj he ▸ h
  unfold Transport.upgrade
  split
  · exact ⟨herror (by decide), ht⟩
  · split
    · exact ⟨herror (by decide), ht⟩
    · next s hs =>
      have hshake := hplain s (ht s hs)
      split
      · next e hfails => exact ⟨herror (hshake.1 e hfails), nofun⟩
      · next s' hok => exact ⟨nofun, .of_stream (hshake.2 s' hok) rfl⟩

theorem FailsPlainly.mapStream {f : Stream → Stream}
    (hf : ∀ s, s.FailsPlainly → (f s).FailsPlainly) (ht : t.FailsPlainly) :
    (t.mapStream f).FailsPlainly := by
  intro s hs
  obtain ⟨s', hs', rfl⟩ := Option.map_eq_some_iff.1 hs
  exact hf s' (ht s' hs')

/-- Receivers leave the stream alone. -/
theorem FailsPlainly.receive {G : Grammar γ υ} {r r' : Receiver γ}
    {o : Except Malformed (Outcome υ)} (ht : t.FailsPlainly)
    (h : r.receive G t = (o, r', t')) : t'.FailsPlainly := by
  rcases hadv : Reception.advance G (r.reception t) with ⟨o', out⟩
  rw [Receiver.receive, hadv] at h
  obtain ⟨-, -, rfl⟩ := h
  exact ht

end Transport

/-! ## Operations and changes of the label -/

/-- What the operation brings along fails in plain words. -/
def Operation.FailsPlainly : Operation γ δ ω → Prop
  | .attach stream _ => stream.FailsPlainly
  | .upgrade handshake => FailsPlainlyWith handshake
  | .meanwhile f => ∀ s, s.FailsPlainly → (f s).FailsPlainly
  | _ => True

/-- A change of a label. -/
inductive LogLabel.Change where
  | setPeer (peer : String)
  | setUser (user : String)
  | setTls (tls : Bool)

/-- The label after a change. -/
def LogLabel.Change.apply (l : LogLabel) : Change → LogLabel
  | setPeer peer => l.setPeer peer
  | setUser user => l.setUser user
  | setTls tls => l.setTls tls

theorem LogLabel.Safe.apply {l : LogLabel} (h : l.Safe) (change : Change) :
    (change.apply l).Safe := by
  cases change with
  | setPeer peer => exact h.setPeer peer
  | setUser user => exact h.setUser user
  | setTls tls => exact h.setTls tls

/-! ## Lines -/

namespace LogLine

/-- What stands behind the label of a line, where input is refused with such reports. -/
inductive Body (refused : Malformed → Prop) : LogLevel → String → Prop
  | life {remark : String} (h : remark ∈ Connection.lifeRemarks) : Body refused .info remark
  | failure {remark reason : String}
    (h : remark ∈ Connection.failureRemarks ∨ remark = "Stream upgrade failed: ")
    (hreason : Plain reason) : Body refused .warn (remark ++ reason)
  | malformed {m : Malformed} (hm : refused m) (h : m.Shows) : Body refused .warn m.message

theorem Body.plain {refused : Malformed → Prop} {level : LogLevel} {text : String}
    (h : Body refused level text) : Plain text := by
  cases h with
  | life h =>
    have hall : ∀ remark ∈ Connection.lifeRemarks, Plain remark := by decide
    exact hall _ h
  | failure h hreason =>
    have hall : ∀ remark ∈ Connection.failureRemarks, Plain remark := by decide
    refine Text.All.append ?_ hreason
    rcases h with h | rfl
    · exact hall _ h
    · decide
  | malformed _ h => exact plain_of_visible h.visible_message

end LogLine

/-! ## Connections -/

namespace Connection

/-- The label is safe, and what the stream says is plain. -/
structure Guarded (c : Connection γ υ δ) : Prop where
  label : c.label.Safe
  link : ∀ t, c.link = .connected t → t.FailsPlainly

/-- The receiver refuses what is there with this report. -/
def Refuses (E : Endpoint γ υ δ ω) (c : Connection γ υ δ) (m : Malformed) : Prop :=
  ∃ t r t', c.link = .connected t ∧ c.receiver.receive E.grammar t = (.error m, r, t')

/-- The log stays as it is, or a line is added to it: the label and one of the remarks. -/
def Logs (E : Endpoint γ υ δ ω) (c c' : Connection γ υ δ) : Prop :=
  c'.log = c.log ∨ ∃ level body, LogLine.Body (c.Refuses E) level body
    ∧ c'.log = c.log ++ [⟨level, c'.label.render ++ " " ++ body⟩]

variable {c c' : Connection γ υ δ} {E : Endpoint γ υ δ ω} {op : Operation γ δ ω}

theorem logs_note {level : LogLevel} {body : String} (hlog : c'.log = c.log)
    (h : LogLine.Body (c.Refuses E) level body) : c.Logs E (c'.note level body) :=
  .inr ⟨level, body, h, hlog ▸ rfl⟩

/-- Safe labels make plain lines. -/
theorem Logs.plain (h : c.Logs E c') (hlabel : c'.label.Safe)
    (hlog : ∀ line ∈ c.log, Plain line.text) : ∀ line ∈ c'.log, Plain line.text := by
  rcases h with h | ⟨level, body, hbody, h⟩
  · exact h ▸ hlog
  · have hspace : Plain " " := by decide
    rw [h, List.forall_mem_append, List.forall_mem_singleton]
    exact ⟨hlog, (hlabel.plain_render.append hspace).append hbody.plain⟩

namespace Guarded

theorem relabel (h : c.Guarded) {label : LogLabel} (hlabel : label.Safe) :
    { c with label }.Guarded := { h with label := hlabel }

theorem connected (h : c.Guarded) {t : Transport} (ht : t.FailsPlainly) :
    { c with link := .connected t }.Guarded :=
  { h with link := fun _ ht' => Link.connected.inj ht' ▸ ht }

theorem attached (h : c.Guarded) {stream : Stream} (hstream : stream.FailsPlainly)
    (peer : Option String) : Guarded { c with
      label := peer.elim c.label c.label.setPeer
      link := .connected (.ofStream stream c.chunkSize) } := by
  have hlabel : (peer.elim c.label c.label.setPeer).Safe := by
    cases peer with
    | none => exact h.label
    | some peer => exact h.label.setPeer peer
  exact (h.relabel hlabel).connected (.of_stream hstream rfl)

end Guarded

/-- Every edit keeps the invariant and writes no other lines. -/
theorem Edit.guarded (hG : E.grammar.RefusesKnown) (hop : op.FailsPlainly) (hc : c.Guarded)
    (h : Edit E op c c') : c'.Guarded ∧ c.Logs E c' := by
  cases h with
  | aside hlabel hlink _ hlog => exact ⟨⟨hlabel ▸ hc.label, hlink ▸ hc.link⟩, .inl hlog⟩
  | remark h => exact ⟨{ hc with }, logs_note rfl (.life h)⟩
  | @attach stream peer hop' =>
    rw [hop'] at hop
    exact ⟨hc.attached hop peer, .inl rfl⟩
  | upgrade hop' hl h =>
    rw [hop'] at hop
    have hnext := (hc.link _ hl).upgrade hop
    rw [h] at hnext
    exact ⟨(hc.relabel (hc.label.setTls true)).connected hnext.2, .inl rfl⟩
  | upgradeFails hop' hl h =>
    rw [hop'] at hop
    have hnext := (hc.link _ hl).upgrade hop
    rw [h] at hnext
    exact ⟨{ hc.connected hnext.2 with }, logs_note rfl (.failure (.inr rfl) (hnext.1 _ rfl))⟩
  | meanwhile hop' hl =>
    rw [hop'] at hop
    exact ⟨hc.connected ((hc.link _ hl).mapStream hop), .inl rfl⟩
  | mapState => exact ⟨{ hc with }, .inl rfl⟩
  | uses hl h => exact ⟨hc.connected (h.failsPlainly (hc.link _ hl)).2, .inl rfl⟩
  | useFails hl h hremark =>
    obtain ⟨hreason, ht⟩ := h.failsPlainly (hc.link _ hl)
    exact ⟨{ hc.connected ht with }, logs_note rfl (.failure (.inl hremark) (hreason _ rfl))⟩
  | receives hl h => exact ⟨{ hc.connected ((hc.link _ hl).receive h) with }, .inl rfl⟩
  | refuses hl h =>
    have hshows := Malformed.shows (Receiver.isKnown_of_receive hG h)
    exact ⟨{ hc.connected ((hc.link _ hl).receive h) with },
      logs_note rfl (.malformed ⟨_, _, _, hl, h⟩ hshows)⟩
  | close => exact ⟨{ hc with link := nofun }, .inl rfl⟩

/-! ## Any row of events -/

/-- What happens to a connection: an operation, or a change of its label by whoever shares it. -/
inductive Event (γ δ ω : Type) where
  | operate (op : Operation γ δ ω)
  | relabel (change : LogLabel.Change)

/-- What the event brings along fails in plain words. -/
def Event.FailsPlainly : Event γ δ ω → Prop
  | operate op => op.FailsPlainly
  | relabel _ => True

/-- The connection after an event. -/
def happen (E : Endpoint γ υ δ ω) (c : Connection γ υ δ) : Event γ δ ω → Connection γ υ δ
  | .operate op => (c.operate E op).2
  | .relabel change => { c with label := change.apply c.label }

/-- One edit or one change of the label, which may come in the midst of an operation. -/
inductive Moment (E : Endpoint γ υ δ ω) (c : Connection γ υ δ) : Connection γ υ δ → Prop
  | edit {op : Operation γ δ ω} {c' : Connection γ υ δ} (hop : op.FailsPlainly)
    (h : Edit E op c c') : Moment E c c'
  | relabel (change : LogLabel.Change) : Moment E c { c with label := change.apply c.label }

/-- Any number of moments. -/
abbrev Moments (E : Endpoint γ υ δ ω) : Connection γ υ δ → Connection γ υ δ → Prop :=
  Relation.ReflTransGen (Moment E)

theorem Moment.guarded (hG : E.grammar.RefusesKnown) (hc : c.Guarded) (h : Moment E c c') :
    c'.Guarded ∧ c.Logs E c' := by
  cases h with
  | edit hop h => exact h.guarded hG hop hc
  | relabel change => exact ⟨hc.relabel (hc.label.apply change), .inl rfl⟩

theorem Moments.guarded (hG : E.grammar.RefusesKnown) (hc : c.Guarded) (h : Moments E c c') :
    c'.Guarded := by
  induction h with
  | refl => exact hc
  | tail _ hmoment ih => exact (hmoment.guarded hG ih).1

theorem Moments.plain (hG : E.grammar.RefusesKnown) (hc : c.Guarded)
    (hlog : ∀ line ∈ c.log, Plain line.text) (h : Moments E c c') :
    ∀ line ∈ c'.log, Plain line.text := by
  induction h with
  | refl => exact hlog
  | tail hbefore hmoment ih =>
    -- a line bears the label of its moment, so later labels do not matter
    obtain ⟨hnext, hlogs⟩ := hmoment.guarded hG (Moments.guarded hG hc hbefore)
    exact hlogs.plain hnext.label ih

theorem moments_happen (E : Endpoint γ υ δ ω) (c : Connection γ υ δ) {event : Event γ δ ω}
    (h : event.FailsPlainly) : Moments E c (c.happen E event) := by
  cases event with
  | operate op =>
    exact (edits_operate E c op).keeps (fun _ _ hc hedit => hc.tail (.edit h hedit)) .refl
  | relabel change => exact .single (.relabel change)

theorem moments_foldl (E : Endpoint γ υ δ ω) (c : Connection γ υ δ) {events : List (Event γ δ ω)}
    (h : ∀ event ∈ events, event.FailsPlainly) : Moments E c (events.foldl (happen E) c) := by
  induction events generalizing c with
  | nil => exact .refl
  | cons event events ih =>
    rw [List.forall_mem_cons] at h
    exact (moments_happen E c h.1).trans (ih _ h.2)

/-- What a peer does shows in the log only as it may. -/
structure LogsSafely (E : Endpoint γ υ δ ω) (c : Connection γ υ δ) : Prop where
  /-- Whatever is done with the connection and its label leads through such moments. -/
  run : ∀ events : List (Event γ δ ω), (∀ event ∈ events, event.FailsPlainly) →
    Moments E c (events.foldl (happen E) c)
  /-- At any moment the names in the label are short and plain. -/
  label : ∀ {c' : Connection γ υ δ}, Moments E c c' → c'.label.Safe
  /-- A line is the label of its moment and one of the remarks. -/
  logs : ∀ {c₁ c₂ : Connection γ υ δ}, Moments E c c₁ → Moment E c₁ c₂ → c₁.Logs E c₂
  /-- No line has a control character. -/
  plain : ∀ {c' : Connection γ υ δ}, Moments E c c' → ∀ line ∈ c'.log, Plain line.text

/-- With a safe label and an empty log, a connection that has no stream yet begins so. -/
theorem logsSafely (hG : E.grammar.RefusesKnown) (hlabel : c.label.Safe)
    (hlink : c.link = .unconnected) (hlog : c.log = []) : c.LogsSafely E :=
  have hc : c.Guarded := ⟨hlabel, fun _ hl => by cases hlink.symm.trans hl⟩
  { run := fun _ => moments_foldl E c
    label := fun h => (h.guarded hG hc).label
    logs := fun h hmoment => (hmoment.guarded hG (h.guarded hG hc)).2
    plain := fun h => h.plain hG hc (hlog ▸ nofun) }

end Connection

/-- The label of a new connection is safe if the name of its protocol is plain. -/
theorem LogLabel.Safe.new {protocol : String} (h : Plain protocol) (id : Nat) :
    LogLabel.Safe { protocol, connection := toString id } :=
  ⟨h, plain_of_visible (Text.visible_natToString id), nofun, nofun⟩

/-- Peers cannot forge lines of the log. Connections of servers and clients of both protocols log
nothing but their label, in which names are plain and not longer than 64 characters, followed by one
of a few remarks, of which a warning of malformed input is printable ASCII and shows at most the
first 128 of the refused bytes. Names that are plain and short are shown as they are, and so are
printable bytes. -/
theorem logsSafely_connections (config : Config) (id : Nat) :
    (Imap.serverConnection config (toString id)).LogsSafely (Imap.serverEndpoint config)
      ∧ (Imap.clientConnection config (toString id)).LogsSafely (Imap.clientEndpoint config)
      ∧ (Pop3.serverConnection config (toString id)).LogsSafely (Pop3.serverEndpoint config)
      ∧ (Pop3.clientConnection config (toString id)).LogsSafely (Pop3.clientEndpoint config)
      ∧ (∀ name, LogLabel.sanitise name = name ↔ Plain name ∧ name.length ≤ 64)
      ∧ ∀ s : Bytes, Text.escape s = String.ofList (s.map fun b => Char.ofNat b.toNat)
        ↔ ∀ b ∈ s, Byte.isPrintable b := by
  have himap : LogLabel.Safe { protocol := Imap.protocolName, connection := toString id } :=
    .new (by decide) id
  have hpop3 : LogLabel.Safe { protocol := Pop3.protocolName, connection := toString id } :=
    .new (by decide) id
  exact ⟨Connection.logsSafely (Imap.Command.refusesKnown_grammar config) himap rfl rfl,
    Connection.logsSafely (Imap.Response.refusesKnown_grammar config) himap rfl rfl,
    Connection.logsSafely (Pop3.Command.refusesKnown_grammar config) hpop3 rfl rfl,
    Connection.logsSafely (Pop3.Response.refusesKnown_grammar config) hpop3 rfl rfl,
    fun _ => LogLabel.sanitise_eq_self_iff, fun _ => Text.escape_eq_iff⟩

end MailProtocol
