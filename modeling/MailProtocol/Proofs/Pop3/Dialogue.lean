import MailProtocol.Proofs.Connection.ByLine
import MailProtocol.Proofs.Pop3.RoundTrip

/-!
# A dialogue of a client and a server

A `Dialogue` is a client and a server with a channel for each direction. The server greets with a
status and then answers each command that it has received. The client sends a command when it has
received the whole answer to the one before (`Dialogue.Allowed`). Either side may receive at any
time, and what is in a channel arrives bit by bit.

Each command begins an `Exchange`. `Dialogue.Inv` ties what either side has heard, and what is still
on its way, to the commands and to the responses of the exchange. Each event keeps it (`Inv.next`),
so in every state that can be reached both sides have received just what the other one has sent, as
far as it has come (`transparent_of_reachable`).
-/

namespace MailProtocol

namespace Pop3

/-- A client and a server, and what is on its way between them. -/
structure Dialogue where
  client : Session Response.Reading Response Unit
  server : Session Unit Command Unit
  /-- What the client has written and the server has not got. -/
  toServer : Bytes := []
  /-- What the server has written and the client has not got. -/
  toClient : Bytes := []
  /-- The commands that the client has sent. -/
  sent : List Command := []
  /-- The responses that the server has sent. -/
  answers : List Response := []
  /-- What the client has yet to receive. -/
  awaited : Due := .status false
  /-- What the server has yet to send. -/
  owed : Due := .status false

/-- What can happen. -/
inductive Event where
  | command (c : Command)
  | respond (r : Response)
  | pollClient
  | pollServer
  /-- So many bytes arrive at the server. -/
  | carryToServer (count : Nat)
  /-- So many bytes arrive at the client. -/
  | carryToClient (count : Nat)
  | idleClient (idle : Bool)
  | idleServer (idle : Bool)

/-- What a client awaits after a result. -/
def Due.afterResult (d : Due) : Option (Except Malformed Response) → Due
  | some (.ok u) => d.after u
  | some (.error _) | none => d

/-- What a server owes after a result. -/
def Due.afterCommand (d : Due) : Option (Except Malformed Command) → Due
  | some (.ok c) => .status c.expectsMultiline
  | some (.error _) | none => d

namespace Dialogue

variable (ofClient ofServer : Config)

/-- Both sides are new, and nothing is on its way. -/
def start (clientId serverId : String) : Dialogue where
  client := .start (clientConnection ofClient clientId) { staysOpen := true }
  server := .start (serverConnection ofServer serverId) { staysOpen := true }

/-- The client has come to another state, and has written something on its way. -/
def moveClient (s : Dialogue) (client : Session Response.Reading Response Unit) : Dialogue :=
  { s with client, toServer := s.toServer ++ s.client.written client }

/-- The server has come to another state, and has written something on its way. -/
def moveServer (s : Dialogue) (server : Session Unit Command Unit) : Dialogue :=
  { s with server, toClient := s.toClient ++ s.server.written server }

/-- The dialogue after an event. -/
def next (s : Dialogue) : Event → Dialogue
  | .command c =>
    let connection := (sendCommand ofClient s.client.connection c).2
    { s.moveClient { s.client with connection } with
      sent := s.sent ++ [c]
      awaited := .status c.expectsMultiline }
  | .respond r =>
    { s.moveServer (s.server.perform (serverEndpoint ofServer) (.send r)) with
      answers := s.answers ++ [r]
      owed := s.owed.after r }
  | .pollClient =>
    let result := (s.client.connection.receive (clientEndpoint ofClient)).1
    { s.moveClient (s.client.perform (clientEndpoint ofClient) .receive) with
      awaited := s.awaited.afterResult (Connection.returned? result) }
  | .pollServer =>
    let result := (s.server.connection.receive (serverEndpoint ofServer)).1
    { s.moveServer (s.server.perform (serverEndpoint ofServer) .receive) with
      owed := s.owed.afterCommand (Connection.returned? result) }
  | .carryToServer count =>
    { s with server := s.server.arrive (s.toServer.take count), toServer := s.toServer.drop count }
  | .carryToClient count =>
    { s with client := s.client.arrive (s.toClient.take count), toClient := s.toClient.drop count }
  | .idleClient idle => s.moveClient (s.client.perform (clientEndpoint ofClient) (.setIdle idle))
  | .idleServer idle => s.moveServer (s.server.perform (serverEndpoint ofServer) (.setIdle idle))

/-- The event may happen: what is sent fits. A command is sent when nothing is awaited, and a
response when it is due. -/
def Allowed (s : Dialogue) : Event → Prop
  | .command c => s.awaited = .nothing ∧ c.Fits ofServer.limits
  | .respond r => s.owed.allows r = true ∧ r.Fits ofClient.limits
  | .pollClient | .pollServer | .carryToServer _ | .carryToClient _ | .idleClient _
  | .idleServer _ => True

/-- The states that any row of events leads to. -/
inductive Reachable : Dialogue → Prop
  | start (clientId serverId : String) : Reachable (start ofClient ofServer clientId serverId)
  | next {s : Dialogue} {e : Event} (h : Reachable s) (he : s.Allowed ofClient ofServer e) :
    Reachable (s.next ofClient ofServer e)

/-! ## The invariant -/

/-- The exchange that the last command has begun. -/
structure Exchange where
  /-- What is due when it begins. -/
  due : Due
  /-- The responses of the server. -/
  responses : List Response := []
  /-- The responses that the client has returned. -/
  got : List Response := []
  /-- The client, with nothing on record from before. -/
  client : Session Response.Reading Response Unit
  /-- What has arrived at the client. -/
  atClient : Bytes := []

/-- Whether the server has got the last of the commands `sent`, of which it has returned some, and
where `due` was due and it has answered with `responses`. -/
inductive Turn (due : Due) (responses : List Response) (sent : List Command)
    (returned : List (Except Malformed Command)) (owed : Due) : Prop
  | server (hreturned : returned = sent.map .ok) (howed : owed = due.afterAll responses)
  /-- The command is on its way. -/
  | client {front : List Command} {c : Command} (hsent : sent = front ++ [c])
    (hreturned : returned = front.map .ok) (hdue : due = .status c.expectsMultiline)
    (hresponses : responses = []) (howed : owed = .nothing)

/-- Receiving the command that is on its way makes it the server's turn. -/
theorem Turn.receive {due owed : Due} {responses : List Response} {sent : List Command}
    {returned : List (Except Malformed Command)} (h : Turn due responses sent returned owed)
    {result : Option (Except Malformed Command)}
    (hfirst : returned ++ result.toList <+: sent.map .ok) :
    Turn due responses sent (returned ++ result.toList) (owed.afterCommand result) := by
  cases result with
  | none =>
    rw [Option.toList_none, List.append_nil]
    exact h
  | some result =>
    have hlength := hfirst.length_le
    rw [Option.toList_some] at hfirst hlength ⊢
    cases h with
    | server hreturned howed =>
      rw [hreturned, List.length_append, List.length_singleton] at hlength
      omega
    | @client front c hsent hreturned hdue hresponses howed =>
      subst hsent
      rw [hreturned, List.map_append] at hfirst
      obtain rfl : result = .ok c := by
        have hone := (List.prefix_append_right_inj _).1 hfirst
        simpa using hone
      refine .server ?_ ?_
      · rw [hreturned, List.map_append]
        rfl
      · rw [hdue, hresponses]
        rfl

/-- What is known of a dialogue: the bytes that have arrived at either side and those on their way
are the lines of what has been sent. The client counts as new since the exchange began. -/
structure Inv (s : Dialogue) (x : Exchange) (atServer : Bytes) : Prop where
  client : x.client.Fed (clientEndpoint ofClient) x.due.reading ofClient.limits.readChunkSize
    x.atClient
  connection : s.client.connection = x.client.connection
  pendingClient : x.client.connection.pending = []
  server : s.server.Fed (serverEndpoint ofServer) () ofServer.limits.readChunkSize atServer
  pendingServer : s.server.connection.pending = []
  fit : ∀ c ∈ s.sent, c.Fits ofServer.limits
  commands : atServer ++ s.toServer = (Command.lines s.sent).flatten
  due : x.due.AllowsAll x.responses
  fitResponses : ∀ u ∈ x.responses, u.Fits ofClient.limits
  responses : x.atClient ++ s.toClient = (Response.lines x.responses).flatten
  returned : x.client.returned = x.got.map .ok
  awaited : s.awaited = x.due.afterAll x.got
  /-- What has been sent and returned before the exchange is the same. -/
  earlier : ∃ sent got, s.answers = sent ++ x.responses
    ∧ s.client.returned = (got ++ x.got).map .ok ∧ List.Forall₂ Response.Same got sent
  turn : Turn x.due x.responses s.sent s.server.returned s.owed

variable {ofClient ofServer} {s : Dialogue} {x : Exchange} {atServer : Bytes}

theorem inv_start (clientId serverId : String) :
    Inv ofClient ofServer (start ofClient ofServer clientId serverId)
      { due := .status false
        client := .start (clientConnection ofClient clientId) { staysOpen := true } } [] where
  client :=
    have hfresh : (clientConnection ofClient clientId).Fresh {} := ⟨rfl, rfl, rfl, rfl⟩
    .start hfresh
  connection := rfl
  pendingClient := rfl
  server :=
    have hfresh : (serverConnection ofServer serverId).Fresh () := ⟨rfl, rfl, rfl, rfl⟩
    .start hfresh
  pendingServer := rfl
  fit := List.forall_mem_nil _
  commands := rfl
  due := trivial
  fitResponses := List.forall_mem_nil _
  responses := rfl
  returned := rfl
  awaited := rfl
  earlier := ⟨[], [], rfl, rfl, .nil⟩
  turn := .server rfl rfl

namespace Inv

/-- What the server makes of the commands. -/
theorem linesOfServer (h : Inv ofClient ofServer s x atServer) :
    (serverEndpoint ofServer).grammar.Lines () (Command.lines s.sent) s.sent :=
  Command.lines_read h.fit

/-- What the client makes of the responses. -/
theorem exists_linesOfClient (h : Inv ofClient ofServer s x atServer) :
    ∃ rs, List.Forall₂ Response.Same rs x.responses
      ∧ (clientEndpoint ofClient).grammar.Lines x.due.reading (Response.lines x.responses) rs
      ∧ x.got <+: rs := by
  obtain ⟨rs, hsame, hlines, -⟩ := Due.exists_lines_read h.due h.fitResponses
  refine ⟨rs, hsame, hlines, ?_⟩
  have hfirst := h.client.returned_prefix_units hlines h.responses
  rw [h.returned] at hfirst
  exact (List.prefix_map_iff_of_injective fun _ _ => Except.ok.inj).1 hfirst

/-- When nothing is awaited, the whole answer has been returned. -/
theorem whole (h : Inv ofClient ofServer s x atServer) (hwhole : s.awaited = .nothing) :
    List.Forall₂ Response.Same x.got x.responses ∧ x.due.afterAll x.responses = .nothing := by
  obtain ⟨rs, hsame, -, hgot⟩ := h.exists_linesOfClient
  obtain ⟨rest, rfl⟩ := hgot
  have hfirst := List.forall₂_take x.got.length hsame
  rw [List.take_left] at hfirst
  have hafter : x.due.afterAll (x.responses.take x.got.length) = .nothing := by
    rw [← Due.afterAll_of_same hfirst, ← h.awaited, hwhole]
  -- nothing more could be due
  have hdue := h.due
  rw [← List.take_append_drop x.got.length x.responses, Due.allowsAll_append, hafter] at hdue
  have hnil := Due.eq_nil_of_nothing hdue.2
  rw [List.take_of_length_le (List.drop_eq_nil_iff.1 hnil)] at hfirst hafter
  exact ⟨hfirst, hafter⟩

/-- When nothing is awaited, it is the client's turn to send. -/
theorem turn_of_whole (h : Inv ofClient ofServer s x atServer) (hwhole : s.awaited = .nothing) :
    s.server.returned = s.sent.map .ok ∧ s.owed = .nothing := by
  obtain ⟨-, hafter⟩ := h.whole hwhole
  cases h.turn with
  | server hreturned howed => exact ⟨hreturned, howed.trans hafter⟩
  | client _ _ hdue hresponses =>
    rw [hresponses, hdue] at hafter
    cases hafter

/-- When nothing is awaited, nothing is left for the client, which is as good as new. -/
theorem anew (h : Inv ofClient ofServer s x atServer) (hwhole : s.awaited = .nothing) :
    s.toClient = [] ∧ s.client.connection.queue = [] ∧ ∀ expectsBody,
      (Session.resume (x.client.connection.mapState ({ · with expectsBody }))).Fed
        (clientEndpoint ofClient) (Due.status expectsBody).reading ofClient.limits.readChunkSize
        [] := by
  obtain ⟨hgot, hafter⟩ := h.whole hwhole
  obtain ⟨rs, hsame, hlines, hreading⟩ := Due.exists_lines_read h.due h.fitResponses
  have hall : x.client.returned.length = rs.length := by
    rw [h.returned, List.length_map, hgot.length_eq, hsame.length_eq]
  obtain ⟨htoClient, hqueue, hanew⟩ := h.client.anew hlines h.responses hall
  have hstate : (clientEndpoint ofClient).grammar.after x.due.reading (Response.lines x.responses)
      = {} := hreading.trans (congrArg Due.reading hafter)
  refine ⟨htoClient, h.connection ▸ hqueue, fun expectsBody => ?_⟩
  have hfed := hanew ({ · with expectsBody })
  rwa [hstate] at hfed

/-! ### Every event keeps it -/

/-- A command may be sent as soon as the last answer is whole, and then a status line is due. -/
theorem command (h : Inv ofClient ofServer s x atServer) {c : Command}
    (hwhole : s.awaited = .nothing) (hc : c.Fits ofServer.limits) :
    ∃ x', Inv ofClient ofServer (s.next ofClient ofServer (.command c)) x' atServer := by
  obtain ⟨hgot, -⟩ := h.whole hwhole
  obtain ⟨hreturned, howed⟩ := h.turn_of_whole hwhole
  obtain ⟨htoClient, -, hanew⟩ := h.anew hwhole
  obtain ⟨link, hsend, -, hsent⟩ := (hanew c.expectsMultiline).send h.pendingClient c
  obtain ⟨earlier, got, hanswers, hearlier, hsame⟩ := h.earlier
  set client := (Session.resume (x.client.connection.mapState
    ({ · with expectsBody := c.expectsMultiline }))).perform (clientEndpoint ofClient) (.send c)
  have hconnection : (sendCommand ofClient s.client.connection c).2 = client.connection := by
    rw [h.connection]
    rfl
  have hwritten : s.client.written { s.client with connection := client.connection }
      = c.write.concat := by
    rw [← Command.first_write, ← Bytes.flatten_asWrites c.write.first]
    refine Session.written_of_output ?_
    rw [h.connection]
    exact congrArg (Connection.output ∘ Prod.snd) hsend
  refine ⟨{ due := .status c.expectsMultiline, client }, ?_⟩
  rw [next, hconnection, moveClient]
  simp only [hwritten]
  exact {
    client := hsent
    connection := rfl
    pendingClient := congrArg (Connection.pending ∘ Prod.snd) hsend
    server := h.server
    pendingServer := h.pendingServer
    fit := List.forall_mem_append.2 ⟨h.fit, List.forall_mem_singleton.2 hc⟩
    commands := by
      rw [Command.lines, List.map_append, List.flatten_append, ← Command.lines, ← h.commands,
        List.append_assoc, List.map_singleton, List.flatten_singleton]
    due := trivial
    fitResponses := List.forall_mem_nil _
    responses := htoClient
    returned := rfl
    awaited := rfl
    earlier := by
      refine ⟨s.answers, got ++ x.got, (List.append_nil _).symm, ?_, ?_⟩
      · rw [List.append_nil]
        exact hearlier
      · rw [hanswers]
        exact List.rel_append hsame hgot
    turn := .client rfl hreturned rfl rfl howed }

theorem respond (h : Inv ofClient ofServer s x atServer) {r : Response}
    (hdue : s.owed.allows r = true) (hr : r.Fits ofClient.limits) :
    Inv ofClient ofServer (s.next ofClient ofServer (.respond r))
      { x with responses := x.responses ++ [r] } atServer := by
  obtain ⟨link, hsend, hwritten, hsent⟩ := h.server.send h.pendingServer r
  replace hwritten := hwritten.trans r.first_write
  obtain ⟨earlier, got, hanswers, hearlier, hsame⟩ := h.earlier
  obtain ⟨hreturned, howed⟩ : s.server.returned = s.sent.map .ok
      ∧ s.owed = x.due.afterAll x.responses := by
    cases h.turn with
    | server hreturned howed => exact ⟨hreturned, howed⟩
    | client _ _ _ _ howed =>
      rw [howed] at hdue
      cases hdue
  rw [next, moveServer]
  simp only [hwritten]
  exact {
    client := h.client
    connection := h.connection
    pendingClient := h.pendingClient
    server := hsent
    pendingServer := congrArg (Connection.pending ∘ Prod.snd) hsend
    fit := h.fit
    commands := h.commands
    due := Due.allowsAll_append.2 ⟨h.due, howed ▸ hdue, trivial⟩
    fitResponses := List.forall_mem_append.2 ⟨h.fitResponses, List.forall_mem_singleton.2 hr⟩
    responses := by
      rw [Response.lines, List.map_append, List.flatten_append, ← Response.lines, ← h.responses,
        List.append_assoc, List.map_singleton, List.flatten_singleton]
    returned := h.returned
    awaited := h.awaited
    earlier := ⟨earlier, got, by rw [hanswers, List.append_assoc], hearlier, hsame⟩
    turn := by
      refine .server hreturned ?_
      rw [howed]
      exact (Due.afterAll_append x.due x.responses [r]).symm }

/-- A call of the client hands out a response, or nothing. -/
theorem exists_received (h : Inv ofClient ofServer s x atServer) :
    ∃ new : List Response,
      (Connection.returned? (s.client.connection.receive (clientEndpoint ofClient)).1).toList
        = new.map .ok
      ∧ s.awaited.afterResult
          (Connection.returned? (s.client.connection.receive (clientEndpoint ofClient)).1)
        = s.awaited.afterAll new := by
  obtain ⟨rs, -, hlines, -⟩ := h.exists_linesOfClient
  obtain ⟨hfed, -⟩ := h.client.receive
  have hfirst := hfed.returned_prefix_units hlines h.responses
  have hreturned : (x.client.perform (clientEndpoint ofClient) .receive).returned
      = x.client.returned ++ (Connection.returned?
        (s.client.connection.receive (clientEndpoint ofClient)).1).toList := by
    rw [h.connection]
    rfl
  rw [hreturned] at hfirst
  rcases hresult : Connection.returned? (s.client.connection.receive (clientEndpoint ofClient)).1
    with _ | report | u
  · exact ⟨[], rfl, rfl⟩
  · -- no response is refused
    rw [hresult] at hfirst
    have hmem := hfirst.subset (List.mem_append_right _ List.mem_cons_self)
    obtain ⟨u, -, hu⟩ := List.mem_map.1 hmem
    cases hu
  · exact ⟨[u], rfl, rfl⟩

theorem pollClient (h : Inv ofClient ofServer s x atServer) :
    ∃ x', Inv ofClient ofServer (s.next ofClient ofServer .pollClient) x' atServer := by
  obtain ⟨hfed, hsettings, -⟩ := h.client.receive
  obtain ⟨earlier, got, hanswers, hearlier, hsame⟩ := h.earlier
  obtain ⟨new, hnew, hafter⟩ := h.exists_received
  have hnothing := Session.written_receive (E := clientEndpoint ofClient) rfl s.client
  refine ⟨{ x with
    client := x.client.perform (clientEndpoint ofClient) .receive
    got := x.got ++ new }, ?_⟩
  rw [next, moveClient]
  simp only [hnothing, hafter, List.append_nil]
  exact {
    client := hfed
    connection := congrArg (fun c => (c.receive (clientEndpoint ofClient)).2) h.connection
    pendingClient := hsettings.pending.trans h.pendingClient
    server := h.server
    pendingServer := h.pendingServer
    fit := h.fit
    commands := h.commands
    due := h.due
    fitResponses := h.fitResponses
    responses := h.responses
    returned := by
      rw [List.map_append, ← h.returned, ← hnew, h.connection]
      rfl
    awaited := by
      rw [Due.afterAll_append, ← h.awaited]
    earlier := by
      refine ⟨earlier, got, hanswers, ?_, hsame⟩
      rw [← List.append_assoc, List.map_append, ← hearlier, ← hnew]
      rfl
    turn := h.turn }

theorem pollServer (h : Inv ofClient ofServer s x atServer) :
    Inv ofClient ofServer (s.next ofClient ofServer .pollServer) x atServer := by
  obtain ⟨hfed, hsettings, -⟩ := h.server.receive
  have hnothing := Session.written_receive (E := serverEndpoint ofServer) rfl s.server
  have hfirst := hfed.returned_prefix_units h.linesOfServer h.commands
  rw [next, moveServer]
  simp only [hnothing, List.append_nil]
  exact {
    client := h.client
    connection := h.connection
    pendingClient := h.pendingClient
    server := hfed
    pendingServer := hsettings.pending.trans h.pendingServer
    fit := h.fit
    commands := h.commands
    due := h.due
    fitResponses := h.fitResponses
    responses := h.responses
    returned := h.returned
    awaited := h.awaited
    earlier := h.earlier
    turn := by
      have hreturned : (s.server.perform (serverEndpoint ofServer) .receive).returned
          = s.server.returned ++ (Connection.returned?
            (s.server.connection.receive (serverEndpoint ofServer)).1).toList := rfl
      rw [hreturned] at hfirst ⊢
      exact h.turn.receive hfirst }

theorem carryToServer (h : Inv ofClient ofServer s x atServer) (count : Nat) :
    ∃ atServer', Inv ofClient ofServer (s.next ofClient ofServer (.carryToServer count)) x
      atServer' := by
  obtain ⟨hfed, link, hconnection⟩ := h.server.arrive (s.toServer.take count)
  refine ⟨_, {
    client := h.client
    connection := h.connection
    pendingClient := h.pendingClient
    server := hfed
    pendingServer := (congrArg Connection.pending hconnection).trans h.pendingServer
    fit := h.fit
    commands := ?_
    due := h.due
    fitResponses := h.fitResponses
    responses := h.responses
    returned := h.returned
    awaited := h.awaited
    earlier := h.earlier
    turn := ?_ }⟩
  · rw [next, List.append_assoc, List.take_append_drop]
    exact h.commands
  · rw [next, Session.arrive_returned]
    exact h.turn

theorem carryToClient (h : Inv ofClient ofServer s x atServer) (count : Nat) :
    ∃ x', Inv ofClient ofServer (s.next ofClient ofServer (.carryToClient count)) x' atServer := by
  obtain ⟨hfed, link, hconnection⟩ := h.client.arrive (s.toClient.take count)
  obtain ⟨earlier, got, hanswers, hearlier, hsame⟩ := h.earlier
  refine ⟨{ x with
    client := x.client.arrive (s.toClient.take count)
    atClient := x.atClient ++ s.toClient.take count }, {
    client := hfed
    connection := ?_
    pendingClient := (congrArg Connection.pending hconnection).trans h.pendingClient
    server := h.server
    pendingServer := h.pendingServer
    fit := h.fit
    commands := h.commands
    due := h.due
    fitResponses := h.fitResponses
    responses := ?_
    returned := ?_
    awaited := h.awaited
    earlier := ⟨earlier, got, hanswers, ?_, hsame⟩
    turn := h.turn }⟩
  · exact Session.arrive_connection h.connection _
  · rw [next, List.append_assoc, List.take_append_drop]
    exact h.responses
  · rw [Session.arrive_returned]
    exact h.returned
  · rw [next, Session.arrive_returned]
    exact hearlier

theorem idleClient (h : Inv ofClient ofServer s x atServer) (idle : Bool) :
    ∃ x', Inv ofClient ofServer (s.next ofClient ofServer (.idleClient idle)) x' atServer := by
  refine ⟨{ x with client := x.client.perform (clientEndpoint ofClient) (.setIdle idle) }, ?_⟩
  rw [next, moveClient]
  simp only [Session.written_setIdle, List.append_nil]
  exact { h with
    client := h.client.setIdle idle
    connection := congrArg (fun c => { c with idle }) h.connection }

theorem idleServer (h : Inv ofClient ofServer s x atServer) (idle : Bool) :
    Inv ofClient ofServer (s.next ofClient ofServer (.idleServer idle)) x atServer := by
  rw [next, moveServer]
  simp only [Session.written_setIdle, List.append_nil]
  exact { h with server := h.server.setIdle idle }

/-- Every event that may happen keeps the invariant. -/
theorem next (h : Inv ofClient ofServer s x atServer) {e : Event}
    (he : s.Allowed ofClient ofServer e) :
    ∃ x' atServer', Inv ofClient ofServer (s.next ofClient ofServer e) x' atServer' := by
  cases e with
  | command c =>
    obtain ⟨x', h'⟩ := h.command he.1 he.2
    exact ⟨_, _, h'⟩
  | respond r => exact ⟨_, _, h.respond he.1 he.2⟩
  | pollClient =>
    obtain ⟨x', h'⟩ := h.pollClient
    exact ⟨_, _, h'⟩
  | pollServer => exact ⟨_, _, h.pollServer⟩
  | carryToServer count =>
    obtain ⟨atServer', h'⟩ := h.carryToServer count
    exact ⟨_, _, h'⟩
  | carryToClient count =>
    obtain ⟨x', h'⟩ := h.carryToClient count
    exact ⟨_, _, h'⟩
  | idleClient idle =>
    obtain ⟨x', h'⟩ := h.idleClient idle
    exact ⟨_, _, h'⟩
  | idleServer idle => exact ⟨_, _, h.idleServer idle⟩

end Inv

theorem Reachable.inv (h : Reachable ofClient ofServer s) :
    ∃ x atServer, Inv ofClient ofServer s x atServer := by
  induction h with
  | start clientId serverId => exact ⟨_, _, inv_start clientId serverId⟩
  | next _ he ih =>
    obtain ⟨x, atServer, h⟩ := ih
    exact h.next he

/-! ## Transparency -/

/-- The client has received just these responses of the server, up to the spelling of codes. -/
def ClientGot (s : Dialogue) (responses : List Response) : Prop :=
  ∃ got : List Response, s.client.returned = got.map .ok ∧ List.Forall₂ Response.Same got responses

/-- The client finds nothing when it receives. -/
def ClientFindsNothing (ofClient : Config) (s : Dialogue) : Prop :=
  Connection.returned? (s.client.connection.receive (clientEndpoint ofClient)).1 = none

/-- The server finds nothing when it receives. -/
def ServerFindsNothing (ofServer : Config) (s : Dialogue) : Prop :=
  Connection.returned? (s.server.connection.receive (serverEndpoint ofServer)).1 = none

/-- All that has been sent has been returned on either side, nothing is owed, and the client stands
outside of a body and expects none. -/
structure AtRest (s : Dialogue) : Prop where
  owed : s.owed = .nothing
  toServer : s.toServer = []
  toClient : s.toClient = []
  queue : s.client.connection.queue = []
  receiver : s.client.connection.receiver = { state := {} }
  commands : s.server.returned = s.sent.map .ok
  responses : s.ClientGot s.answers

/-- Either side receives what the other one sends. -/
structure Transparent (ofClient ofServer : Config) (s : Dialogue) : Prop where
  /-- The server returns the commands of the client in order, and refuses nothing. -/
  commands : s.server.returned <+: s.sent.map .ok
  /-- The client returns the responses of the server in order, and refuses nothing. -/
  responses : ∃ responses, responses <+: s.answers ∧ s.ClientGot responses
  /-- The server has returned all commands when none is on its way and it finds nothing. -/
  allCommands : s.toServer = [] → s.ServerFindsNothing ofServer → s.server.returned = s.sent.map .ok
  /-- The client has returned all responses when none is on its way and it finds nothing. -/
  allResponses : s.toClient = [] → s.ClientFindsNothing ofClient → s.ClientGot s.answers
  /-- When the whole answer to a command has been received, everything is at rest. -/
  whole : s.awaited = .nothing → s.AtRest
  /-- The client keeps in mind what is due after the responses that it has read, whether it has
  returned them or read them ahead. -/
  reading : ∃ ahead, s.client.connection.queue = ahead.map .ok
    ∧ s.client.connection.receiver = { state := (s.awaited.afterAll ahead).reading }
  /-- When nothing is awaited, any command is sent whole. -/
  sends : s.awaited = .nothing →
    ∀ c, (sendCommand ofClient s.client.connection c).1 = .ok .sent
  /-- Any response is sent whole. -/
  answers : ∀ r, (s.server.connection.send (serverEndpoint ofServer) r).1 = .ok .sent
  /-- When nothing is on its way and neither side finds anything, the client awaits just what the
  server owes. -/
  agree : s.toServer = [] → s.toClient = [] → s.ServerFindsNothing ofServer →
    s.ClientFindsNothing ofClient → s.awaited = s.owed

namespace Inv

/-- What the client has returned in the exchange comes behind what it has returned before. -/
theorem clientGot (h : Inv ofClient ofServer s x atServer) {responses rest : List Response}
    (hresponses : x.responses = responses ++ rest)
    (hgot : List.Forall₂ Response.Same x.got responses) :
    ∃ all, s.answers = all ++ rest ∧ s.ClientGot all := by
  obtain ⟨earlier, got, hanswers, hearlier, hsame⟩ := h.earlier
  refine ⟨earlier ++ responses, ?_, got ++ x.got, hearlier, List.rel_append hsame hgot⟩
  rw [hanswers, hresponses, List.append_assoc]

/-- The server has received all that has come to it. -/
theorem allCommands (h : Inv ofClient ofServer s x atServer) (htoServer : s.toServer = [])
    (hnothing : s.ServerFindsNothing ofServer) : s.server.returned = s.sent.map .ok := by
  have hcommands := h.commands
  rw [htoServer, List.append_nil] at hcommands
  exact h.server.returned_eq h.linesOfServer hcommands hnothing

/-- The client has received all that has come to it. -/
theorem allResponses (h : Inv ofClient ofServer s x atServer) (htoClient : s.toClient = [])
    (hnothing : s.ClientFindsNothing ofClient) :
    List.Forall₂ Response.Same x.got x.responses := by
  obtain ⟨rs, hsame, hlines, -⟩ := h.exists_linesOfClient
  have hresponses := h.responses
  rw [htoClient, List.append_nil] at hresponses
  rw [ClientFindsNothing, h.connection] at hnothing
  have hreturned := h.client.returned_eq hlines hresponses hnothing
  rw [h.returned] at hreturned
  rwa [List.map_injective_iff.2 (fun _ _ => Except.ok.inj) hreturned]

/-- The client has read some responses ahead, and stands behind them. -/
theorem reading (h : Inv ofClient ofServer s x atServer) :
    ∃ ahead, s.client.connection.queue = ahead.map .ok
      ∧ s.client.connection.receiver = { state := (s.awaited.afterAll ahead).reading } := by
  obtain ⟨rs, hsame, hlines, -⟩ := h.exists_linesOfClient
  obtain ⟨n, hread, -⟩ := h.client.hasRead hlines h.responses
  obtain ⟨-, -, -, hafter⟩ := Due.exists_lines_read (h.due.take n) fun u hu =>
    h.fitResponses u (List.mem_of_mem_take hu)
  have hresults := hread.results
  rw [h.returned] at hresults
  obtain ⟨got, ahead, htake, hgot, hahead⟩ := List.map_eq_append_iff.1 hresults.symm
  obtain rfl := List.map_injective_iff.2 (fun _ _ => Except.ok.inj) hgot
  refine ⟨ahead, by rw [h.connection, hahead], ?_⟩
  have hreceiver := hread.receiver
  rw [Response.lines, ← List.map_take, ← Response.lines] at hreceiver
  rw [h.connection, hreceiver, h.awaited, ← Due.afterAll_append, ← htake,
    Due.afterAll_of_same (List.forall₂_take n hsame)]
  exact congrArg (Receiver.mk · .empty) hafter

/-- When nothing is awaited, all that has been sent has been returned. -/
theorem atRest (h : Inv ofClient ofServer s x atServer) (hwhole : s.awaited = .nothing) :
    s.AtRest := by
  obtain ⟨hgot, -⟩ := h.whole hwhole
  obtain ⟨hreturned, howed⟩ := h.turn_of_whole hwhole
  obtain ⟨htoClient, hqueue, -⟩ := h.anew hwhole
  obtain ⟨htoServer, -⟩ := h.server.anew h.linesOfServer h.commands
    ((congrArg List.length hreturned).trans (List.length_map _))
  obtain ⟨all, hanswers, hall⟩ := h.clientGot (List.append_nil _).symm hgot
  obtain ⟨ahead, hahead, hreceiver⟩ := h.reading
  rw [hqueue] at hahead
  obtain rfl := List.map_eq_nil_iff.1 hahead.symm
  rw [hwhole] at hreceiver
  rw [List.append_nil] at hanswers
  exact ⟨howed, htoServer, htoClient, hqueue, hreceiver, hreturned, hanswers ▸ hall⟩

end Inv

/-- A client and a server receive just what the other one sends, however it arrives and whatever it
looks like. -/
theorem transparent_of_reachable (h : Reachable ofClient ofServer s) :
    Transparent ofClient ofServer s := by
  obtain ⟨x, atServer, hinv⟩ := h.inv
  refine ⟨?_, ?_, hinv.allCommands, fun htoClient hnothing => ?_, fun hwhole => ?_, hinv.reading,
    fun hwhole c => ?_, fun r => ?_, fun htoServer htoClient hserver hclient => ?_⟩
  · exact hinv.server.returned_prefix_units hinv.linesOfServer hinv.commands
  · obtain ⟨rs, hsame, -, rest, rfl⟩ := hinv.exists_linesOfClient
    have hgot := List.forall₂_take x.got.length hsame
    rw [List.take_left] at hgot
    obtain ⟨all, hanswers, hall⟩ := hinv.clientGot (List.take_append_drop _ _).symm hgot
    exact ⟨all, ⟨_, hanswers.symm⟩, hall⟩
  · obtain ⟨all, hanswers, hall⟩ := hinv.clientGot (List.append_nil _).symm
      (hinv.allResponses htoClient hnothing)
    rw [hanswers, List.append_nil]
    exact hall
  · exact hinv.atRest hwhole
  · obtain ⟨-, -, hanew⟩ := hinv.anew hwhole
    obtain ⟨link, hsend, -⟩ := (hanew c.expectsMultiline).send hinv.pendingClient c
    rw [hinv.connection]
    exact congrArg Prod.fst hsend
  · obtain ⟨link, hsend, -⟩ := hinv.server.send hinv.pendingServer r
    exact congrArg Prod.fst hsend
  · have hgot := hinv.allResponses htoClient hclient
    have hreturned := hinv.allCommands htoServer hserver
    rw [hinv.awaited, Due.afterAll_of_same hgot]
    cases hinv.turn with
    | server _ howed => exact howed.symm
    | client hsent hreturned' =>
      rw [hreturned', hsent] at hreturned
      have hlength := congrArg List.length hreturned
      simp at hlength

/-- A message is retrieved of which one line looks like the end of a body and another one like a
status. The greeting and the body come in parts, and the code comes back as it is registered. -/
theorem transparent_of_reachable_retrieve :
    let greeting : Response := .status .positive { text := Bytes.ascii "ready" }
    let retrieve : Command := { verb := Bytes.ascii "RETR", args := [Bytes.ascii "1"] }
    let status : Response := .status .positive { code := some (.fresh "auth") }
    let dot : Response := .line (Bytes.ascii ".")
    let lookalike : Response := .line (Bytes.ascii "-ERR")
    let asked := [.respond greeting, .carryToClient 4, .pollClient, .carryToClient 100, .pollClient,
      .command retrieve, .carryToServer 100, .pollServer].foldl (next {} {}) (start {} {} "1" "2")
    let s := [.respond status, .respond dot, .respond lookalike, .carryToClient 14, .pollClient,
      .respond .termination, .carryToClient 100, .pollClient, .pollClient, .pollClient].foldl
        (next {} {}) asked
    Reachable {} {} s ∧ Transparent {} {} s ∧ s.awaited = .nothing
      ∧ s.server.returned = [.ok retrieve]
      ∧ s.client.returned = [.ok greeting, .ok (.status .positive { code := some (.known "AUTH") }),
        .ok dot, .ok lookalike, .ok .termination] := by
  intro greeting retrieve status dot lookalike asked s
  have hgreeting : greeting.Fits ({} : Config).limits :=
    ⟨⟨by decide, by simp, by decide⟩, by decide +kernel⟩
  have hretrieve : retrieve.Fits ({} : Config).limits :=
    ⟨⟨by decide, by decide, by decide, by decide +kernel, by decide +kernel⟩, by decide +kernel⟩
  have hstatus : status.Fits ({} : Config).limits :=
    ⟨⟨by decide, by simp [Token.fresh], by decide⟩, by decide +kernel⟩
  have hdot : dot.Fits ({} : Config).limits :=
    ⟨(by decide : Byte.lf ∉ Bytes.ascii "."), by decide +kernel⟩
  have hlookalike : lookalike.Fits ({} : Config).limits :=
    ⟨(by decide : Byte.lf ∉ Bytes.ascii "-ERR"), by decide +kernel⟩
  have htermination : Response.termination.Fits ({} : Config).limits := ⟨trivial, by decide +kernel⟩
  have hasked : Reachable {} {} asked := by
    refine .next (e := .pollServer) ?_ trivial
    refine .next (e := .carryToServer 100) ?_ trivial
    refine .next (e := .command retrieve) ?_ ⟨by decide +kernel, hretrieve⟩
    refine .next (e := .pollClient) ?_ trivial
    refine .next (e := .carryToClient 100) ?_ trivial
    refine .next (e := .pollClient) ?_ trivial
    refine .next (e := .carryToClient 4) ?_ trivial
    exact .next (e := .respond greeting) (.start "1" "2") ⟨by decide +kernel, hgreeting⟩
  have hreachable : Reachable {} {} s := by
    refine .next (e := .pollClient) ?_ trivial
    refine .next (e := .pollClient) ?_ trivial
    refine .next (e := .pollClient) ?_ trivial
    refine .next (e := .carryToClient 100) ?_ trivial
    refine .next (e := .respond .termination) ?_ ⟨by decide +kernel, htermination⟩
    refine .next (e := .pollClient) ?_ trivial
    refine .next (e := .carryToClient 14) ?_ trivial
    refine .next (e := .respond lookalike) ?_ ⟨by decide +kernel, hlookalike⟩
    refine .next (e := .respond dot) ?_ ⟨by decide +kernel, hdot⟩
    exact .next (e := .respond status) hasked ⟨by decide +kernel, hstatus⟩
  exact ⟨hreachable, transparent_of_reachable hreachable, by decide +kernel, by decide +kernel,
    by decide +kernel⟩

end Dialogue

end Pop3

end MailProtocol
