import MailProtocol.Proofs.Connection.Channel
import MailProtocol.Proofs.Imap.Accepted
import MailProtocol.Proofs.Imap.Wire

/-!
# A client and a server in step

A `System` is a client and a server with a channel for each direction. Either side may send and
receive at any time, and what is in a channel arrives bit by bit. The client goes on with a command
once for each request that it has received (`System.Allowed`).

`System.Inv` ties what either side has heard, and what is still on its way, to the commands that the
client has sent and to the responses and requests that the server has written. Each event keeps it
(`Inv.next`), so in every state that can be reached the server has returned the client's commands in
order, and the client has a segment to go on with whenever it is asked for one
(`inStep_of_reachable`).
-/

namespace MailProtocol

namespace Imap

/-- The command is well-formed, and neither its literals nor its lines are too long. -/
structure Command.Fits (w : Writer) (limits : Limits) (c : Command) : Prop where
  wellFormed : c.WellFormed limits.maxLiteralLength
  lines : ∀ l ∈ Bytes.physicalLines c.literals (c.write w).concat, l.length ≤ limits.maxLineLength

/-- A command that the server reads back as it was meant, and whose lines are not too long, fits. -/
theorem Command.Fits.of_parse {w : Writer} {limits : Limits} {c : Command} {t : Bytes}
    (h : parse limits.maxLiteralLength ((c.write w).concat ++ t) = .ok (.complete (c.asRead w) t))
    (hlines : ∀ l ∈ Bytes.physicalLines c.literals (c.write w).concat,
      l.length ≤ limits.maxLineLength) : c.Fits w limits :=
  have hwell := wellFormed_of_parse h
  ⟨⟨hwell.tag, hwell.verb, hwell.prefixed, hwell.args⟩, hlines⟩

/-- The response is well-formed, and neither its literals nor its lines are too long. -/
structure Response.Fits (limits : Limits) (r : Response) : Prop where
  wellFormed : r.WellFormed limits.maxLiteralLength
  lines : ∀ l ∈ Bytes.physicalLines r.literals r.write.concat, l.length ≤ limits.maxLineLength

/-- A client and a server, and what is on its way between them. -/
structure System where
  client : Session Bool Response Command.Writer
  server : Session Unit Command Unit
  /-- What the client has written and the server has not got. -/
  toServer : Bytes := []
  /-- What the server has written and the client has not got. -/
  toClient : Bytes := []
  /-- The commands that the client has begun to send. -/
  sent : List Command := []
  /-- How often the client has gone on with a command. -/
  answered : Nat := 0

/-- The request to go on that a server writes. -/
def request (config : Config) : Response :=
  .continuation (Utf8.encode config.imap.continuationPrompt)

theorem concat_write_request (config : Config) :
    (request config).write.concat = requestLine config := by
  rw [request, Response.write, Segments.concat_append, Response.writeContent,
    Segments.concat_ofBytes, Segments.concat_ofBytes]
  rfl

theorem requests_eq_replicate (config : Config) (count : Nat) :
    (serverEndpoint config).requests count = List.replicate count (requestLine config) := by
  show (List.replicate count [requestLine config]).flatten = _
  exact List.flatten_replicate_singleton

/-- Requests can be read if they stay on their line, which is not too long. -/
theorem request_fits {config : Config} {limits : Limits}
    (hprompt : Byte.lf ∉ Utf8.encode config.imap.continuationPrompt)
    (hrequest : (requestLine config).length ≤ limits.maxLineLength) :
    (request config).Fits limits := by
  have hplus : Byte.lf ∉ Bytes.ascii "+ " := by decide
  have hline : (requestLine config).IsLine := by
    rw [requestLine, List.append_assoc]
    exact .append hplus (.append hprompt Bytes.isLine_crlf)
  refine ⟨.continuation hprompt, ?_⟩
  rw [concat_write_request]
  show ∀ l ∈ Bytes.lines (requestLine config), l.length ≤ limits.maxLineLength
  rw [Bytes.lines_of_isLine hline, List.forall_mem_singleton]
  exact hrequest

/-- What can happen. -/
inductive Event where
  | send (c : Command)
  /-- The client goes on with the command that it has begun. -/
  | answer
  | respond (r : Response)
  | pollClient
  | pollServer
  /-- So many bytes arrive at the server. -/
  | carryToServer (count : Nat)
  /-- So many bytes arrive at the client. -/
  | carryToClient (count : Nat)

namespace System

variable (ofClient ofServer : Config)

/-- How the client writes its commands. -/
def writer : Command.Writer := { literalPlus := ofClient.imap.literalPlus }

/-- Both sides are new and idle, and nothing is on its way. -/
def start (clientId serverId : String) : System where
  client := (Session.start (clientConnection ofClient clientId) { staysOpen := true }).perform
    (clientEndpoint ofClient) (.setIdle true)
  server := (Session.start (serverConnection ofServer serverId) { staysOpen := true }).perform
    (serverEndpoint ofServer) (.setIdle true)

/-- The client makes a call. -/
def clientCalls (s : System) (call : Call Command) : System :=
  let client := s.client.perform (clientEndpoint ofClient) call
  { s with client, toServer := s.toServer ++ s.client.written client }

/-- The server makes a call. -/
def serverCalls (s : System) (call : Call Response) : System :=
  let server := s.server.perform (serverEndpoint ofServer) call
  { s with server, toClient := s.toClient ++ s.server.written server }

/-- The system after an event. A command counts as begun if sending it is not refused. -/
def next (s : System) : Event → System
  | .send c =>
    let begun := match (s.client.connection.send (clientEndpoint ofClient) c).1 with
      | .ok _ => [c]
      | .error _ => []
    { s.clientCalls ofClient (.send c) with sent := s.sent ++ begun }
  | .answer => { s.clientCalls ofClient .sendContinuation with answered := s.answered + 1 }
  | .respond r => s.serverCalls ofServer (.send r)
  | .pollClient => s.clientCalls ofClient .receive
  | .pollServer => s.serverCalls ofServer .receive
  | .carryToServer count =>
    { s with server := s.server.arrive (s.toServer.take count), toServer := s.toServer.drop count }
  | .carryToClient count =>
    { s with client := s.client.arrive (s.toClient.take count), toClient := s.toClient.drop count }

/-- A result of the client that is a request to go on. -/
def isRequest : Except Malformed Response → Bool
  | .ok r => r.isContinuation
  | .error _ => false

/-- How many requests the client has received. -/
def received (s : System) : Nat := s.client.returned.countP isRequest

/-- The event may happen: what is sent fits, only receiving makes requests, and the client goes on
once for each of them. -/
def Allowed (s : System) : Event → Prop
  | .send c => c.Fits (writer ofClient) ofServer.limits
  | .answer => s.answered < s.received
  | .respond r => r.Fits ofClient.limits ∧ r.isContinuation = false
  | .pollClient | .pollServer | .carryToServer _ | .carryToClient _ => True

/-- The states that any row of events leads to. -/
inductive Reachable : System → Prop
  | start (clientId serverId : String) : Reachable (start ofClient ofServer clientId serverId)
  | next {s : System} {e : Event} (h : Reachable s) (he : s.Allowed ofClient ofServer e) :
    Reachable (s.next ofClient ofServer e)

/-! ## The invariant -/

/-- What is known of a system: the bytes that have arrived at either side and those on their way are
what the client has written of its commands, and the responses `us`, among which are the server's
requests. -/
structure Inv (s : System) (us : List Response) (atServer atClient : Bytes) : Prop where
  client : s.client.Fed (clientEndpoint ofClient) false ofClient.limits.readChunkSize atClient
  server : s.server.Fed (serverEndpoint ofServer) () ofServer.limits.readChunkSize atServer
  writer : s.client.connection.writer = writer ofClient
  pending : s.server.connection.pending = []
  sent : ∀ c ∈ s.sent, c.Fits (System.writer ofClient) ofServer.limits
  progress : Command.Progress (System.writer ofClient) s.sent s.answered
    s.client.connection.pending (atServer ++ s.toServer)
  responses : ∀ u ∈ us, u.Fits ofClient.limits
  written : atClient ++ s.toClient = Response.sent us
  requests : us.countP Response.isContinuation = s.server.requests.length

variable {ofClient ofServer} {s : System} {us : List Response} {atServer atClient : Bytes}

theorem inv_start (clientId serverId : String) :
    Inv ofClient ofServer (start ofClient ofServer clientId serverId) [] [] [] where
  client := by
    have hfresh : (clientConnection ofClient clientId).Fresh false := ⟨rfl, rfl, rfl, rfl⟩
    exact (Session.Fed.start hfresh).setIdle true
  server := by
    have hfresh : (serverConnection ofServer serverId).Fresh () := ⟨rfl, rfl, rfl, rfl⟩
    exact (Session.Fed.start hfresh).setIdle true
  writer := rfl
  pending := rfl
  sent := List.forall_mem_nil _
  progress := .whole []
  responses := List.forall_mem_nil _
  written := rfl
  requests := rfl

namespace Inv

/-- What the server makes of all that the client has written. -/
theorem heard (h : Inv ofClient ofServer s us atServer atClient) {later : List Bytes}
    (hlater : later.flatten = s.toServer) {os : List (Reported Command)}
    (hos : os = Reception.feed (serverEndpoint ofServer).lawful { state := (), buffer := [] }
      (Read.pieces s.server.input ++ later)) :
    Reported.results os = (if s.client.connection.pending = [] then s.sent else s.sent.dropLast).map
        (.ok ∘ Command.asRead (System.writer ofClient))
      ∧ (Reported.dues 0 os).length
        = s.answered + if s.client.connection.pending = [] then 0 else 1 := by
  refine h.progress.feed (fun c hc => (h.sent c hc).wellFormed) (fun c hc => (h.sent c hc).lines) ?_
    hos
  rw [List.flatten_append, h.server.bytes, hlater]

/-- The server has returned the commands in order. -/
theorem returned_prefix (h : Inv ofClient ofServer s us atServer atClient) :
    s.server.returned <+: s.sent.map (.ok ∘ Command.asRead (System.writer ofClient)) := by
  have hprefix := h.server.returned_prefix [s.toServer]
  rw [(h.heard List.flatten_singleton rfl).1] at hprefix
  refine hprefix.trans (List.IsPrefix.map _ ?_)
  split
  · exact List.prefix_rfl
  · exact List.dropLast_prefix _

/-- The server has asked for no more segments than the client has sent or is to send next. -/
theorem length_requests_le (h : Inv ofClient ofServer s us atServer atClient) :
    s.server.requests.length
      ≤ s.answered + if s.client.connection.pending = [] then 0 else 1 := by
  rw [← (h.heard List.flatten_singleton rfl).2]
  exact h.server.length_requests_le (requests_serverEndpoint ofServer) [s.toServer]

/-- What the client makes of all that the server has written. -/
theorem countP_isRequest (h : Inv ofClient ofServer s us atServer atClient) {later : List Bytes}
    (hlater : later.flatten = s.toClient) :
    (Reported.results (Reception.feed (clientEndpoint ofClient).lawful
        { state := false, buffer := [] } (Read.pieces s.client.input ++ later))).countP isRequest
      = s.server.requests.length := by
  have hpieces : (Read.pieces s.client.input ++ later).flatten = Response.sent us := by
    rw [List.flatten_append, h.client.bytes, hlater, h.written]
  obtain ⟨rs, hrs, hsame⟩ := Response.results_feed (fun u hu => (h.responses u hu).wellFormed)
    (fun u hu => (h.responses u hu).lines) false hpieces
  rw [← h.requests, ← Response.countP_isContinuation hsame]
  refine (congrArg (List.countP isRequest) hrs).trans ?_
  rw [List.countP_map]
  rfl

/-- The client has received no more requests than the server has made. -/
theorem received_le (h : Inv ofClient ofServer s us atServer atClient) :
    s.received ≤ s.server.requests.length := by
  rw [← h.countP_isRequest List.flatten_singleton]
  exact (h.client.returned_prefix [s.toClient]).sublist.countP_le

/-- A request that has not been answered is one for a segment that waits. -/
theorem pending_ne_nil (h : Inv ofClient ofServer s us atServer atClient)
    (hlt : s.answered < s.received) : s.client.connection.pending ≠ [] := by
  intro hpending
  have hle := h.length_requests_le
  rw [if_pos hpending] at hle
  have := h.received_le
  omega

/-! ### Every event keeps it -/

theorem send (h : Inv ofClient ofServer s us atServer atClient) {c : Command}
    (hc : c.Fits (System.writer ofClient) ofServer.limits) :
    Inv ofClient ofServer (s.next ofClient ofServer (.send c)) us atServer atClient := by
  by_cases hpending : s.client.connection.pending = []
  · obtain ⟨link, hsend, hwritten, hfed⟩ := h.client.send hpending c
    have hconnection := congrArg Prod.snd hsend
    have hprogress := h.progress
    rw [hpending] at hprogress
    have hprogress' := hprogress.send c
    rw [List.append_assoc] at hprogress'
    rw [next, hsend, clientCalls]
    simp only [hwritten]
    exact {
      client := hfed
      server := h.server
      writer := (congrArg Connection.writer hconnection).trans h.writer
      pending := h.pending
      sent := List.forall_mem_append.2 ⟨h.sent, List.forall_mem_singleton.2 hc⟩
      progress := by
        rw [← h.writer] at hprogress' ⊢
        exact (congrArg Connection.pending hconnection) ▸ hprogress'
      responses := h.responses
      written := h.written
      requests := h.requests }
  · -- another command is refused
    have hsend := h.client.send_of_awaiting hpending c
    have hsame : s.client.perform (clientEndpoint ofClient) (.send c) = s.client := by
      rw [Session.perform, hsend]
    have hnothing : s.client.written s.client = [] :=
      Session.written_of_output (List.append_nil _).symm
    rw [next, hsend, clientCalls, hsame]
    simp only [hnothing, List.append_nil]
    exact h

theorem answer (h : Inv ofClient ofServer s us atServer atClient) (hlt : s.answered < s.received) :
    Inv ofClient ofServer (s.next ofClient ofServer .answer) us atServer atClient := by
  obtain ⟨segment, pending, hpending⟩ := List.exists_cons_of_ne_nil (h.pending_ne_nil hlt)
  obtain ⟨outcome, link, hsend, hwritten, hfed⟩ := h.client.sendContinuation hpending
  have hconnection := congrArg Prod.snd hsend
  have hprogress := h.progress
  rw [hpending] at hprogress
  have hprogress' := hprogress.answer
  rw [List.append_assoc] at hprogress'
  rw [next, clientCalls]
  simp only [hwritten]
  exact {
    client := hfed
    server := h.server
    writer := (congrArg Connection.writer hconnection).trans h.writer
    pending := h.pending
    sent := h.sent
    progress := (congrArg Connection.pending hconnection) ▸ hprogress'
    responses := h.responses
    written := h.written
    requests := h.requests }

theorem respond (h : Inv ofClient ofServer s us atServer atClient) {r : Response}
    (hr : r.Fits ofClient.limits) (hplain : r.isContinuation = false) :
    Inv ofClient ofServer (s.next ofClient ofServer (.respond r)) (us ++ [r]) atServer
      atClient := by
  obtain ⟨link, hsend, hwritten, hfed⟩ := h.server.send h.pending r
  replace hwritten := hwritten.trans r.concat_write.symm
  have hconnection := congrArg Prod.snd hsend
  rw [next, serverCalls]
  simp only [hwritten]
  exact {
    client := h.client
    server := hfed
    writer := h.writer
    pending := (congrArg Connection.pending hconnection).trans r.rest_write
    sent := h.sent
    progress := h.progress
    responses := List.forall_mem_append.2 ⟨h.responses, List.forall_mem_singleton.2 hr⟩
    written := by
      rw [Response.sent_append, Response.sent_singleton, ← h.written, List.append_assoc]
    requests := by
      rw [List.countP_append, List.countP_singleton, hplain, h.requests]
      rfl }

theorem pollClient (h : Inv ofClient ofServer s us atServer atClient) :
    Inv ofClient ofServer (s.next ofClient ofServer .pollClient) us atServer atClient := by
  obtain ⟨hfed, hsettings, -⟩ := h.client.receive
  have hnothing := Session.written_receive (E := clientEndpoint ofClient) rfl s.client
  rw [next, clientCalls]
  simp only [hnothing, List.append_nil]
  exact {
    client := hfed
    server := h.server
    writer := hsettings.writer.trans h.writer
    pending := h.pending
    sent := h.sent
    progress := hsettings.pending.symm ▸ h.progress
    responses := h.responses
    written := h.written
    requests := h.requests }

theorem pollServer (hprompt : Byte.lf ∉ Utf8.encode ofServer.imap.continuationPrompt)
    (hrequest : (requestLine ofServer).length ≤ ofClient.limits.maxLineLength)
    (h : Inv ofClient ofServer s us atServer atClient) :
    ∃ us', Inv ofClient ofServer (s.next ofClient ofServer .pollServer) us' atServer atClient := by
  obtain ⟨hfed, hsettings, k, hbytes, hrequests⟩ := h.server.receive
  have hwritten : s.server.written (s.server.perform (serverEndpoint ofServer) .receive)
      = Response.sent (List.replicate k (request ofServer)) := by
    rw [Response.sent, List.map_replicate, concat_write_request, ← requests_eq_replicate, hbytes]
  rw [next, serverCalls]
  simp only [hwritten]
  refine ⟨us ++ List.replicate k (request ofServer), ?_⟩
  exact {
    client := h.client
    server := hfed
    writer := h.writer
    pending := hsettings.pending.trans h.pending
    sent := h.sent
    progress := h.progress
    responses := by
      refine List.forall_mem_append.2 ⟨h.responses, fun u hu => ?_⟩
      rw [List.eq_of_mem_replicate hu]
      exact request_fits hprompt hrequest
    written := by rw [Response.sent_append, ← h.written, List.append_assoc]
    requests := by
      rw [hrequests, requests_eq_replicate, List.countP_append, List.countP_replicate,
        List.length_append, List.length_map, List.length_replicate, h.requests]
      rfl }

theorem carryToServer (h : Inv ofClient ofServer s us atServer atClient) (count : Nat) :
    ∃ atServer', Inv ofClient ofServer (s.next ofClient ofServer (.carryToServer count)) us
      atServer' atClient := by
  obtain ⟨hfed, link, hconnection⟩ := h.server.arrive (s.toServer.take count)
  refine ⟨_, {
    client := h.client
    server := hfed
    writer := h.writer
    pending := (congrArg Connection.pending hconnection).trans h.pending
    sent := h.sent
    progress := ?_
    responses := h.responses
    written := h.written
    requests := ?_ }⟩
  · rw [next, List.append_assoc, List.take_append_drop]
    exact h.progress
  · rw [h.requests, next, Session.arrive_requests]

theorem carryToClient (h : Inv ofClient ofServer s us atServer atClient) (count : Nat) :
    ∃ atClient', Inv ofClient ofServer (s.next ofClient ofServer (.carryToClient count)) us
      atServer atClient' := by
  obtain ⟨hfed, link, hconnection⟩ := h.client.arrive (s.toClient.take count)
  refine ⟨_, {
    client := hfed
    server := h.server
    writer := (congrArg Connection.writer hconnection).trans h.writer
    pending := h.pending
    sent := h.sent
    progress := (congrArg Connection.pending hconnection) ▸ h.progress
    responses := h.responses
    written := ?_
    requests := h.requests }⟩
  rw [next, List.append_assoc, List.take_append_drop]
  exact h.written

/-- Every event that may happen keeps the invariant. -/
theorem next (hprompt : Byte.lf ∉ Utf8.encode ofServer.imap.continuationPrompt)
    (hrequest : (requestLine ofServer).length ≤ ofClient.limits.maxLineLength)
    (h : Inv ofClient ofServer s us atServer atClient) {e : Event}
    (he : s.Allowed ofClient ofServer e) :
    ∃ us' atServer' atClient', Inv ofClient ofServer (s.next ofClient ofServer e) us' atServer'
      atClient' := by
  cases e with
  | send c => exact ⟨_, _, _, h.send he⟩
  | answer => exact ⟨_, _, _, h.answer he⟩
  | respond r => exact ⟨_, _, _, h.respond he.1 he.2⟩
  | pollClient => exact ⟨_, _, _, h.pollClient⟩
  | pollServer =>
    obtain ⟨us', h'⟩ := h.pollServer hprompt hrequest
    exact ⟨_, _, _, h'⟩
  | carryToServer count =>
    obtain ⟨atServer', h'⟩ := h.carryToServer count
    exact ⟨_, _, _, h'⟩
  | carryToClient count =>
    obtain ⟨atClient', h'⟩ := h.carryToClient count
    exact ⟨_, _, _, h'⟩

end Inv

theorem Reachable.inv (hprompt : Byte.lf ∉ Utf8.encode ofServer.imap.continuationPrompt)
    (hrequest : (requestLine ofServer).length ≤ ofClient.limits.maxLineLength)
    (h : Reachable ofClient ofServer s) :
    ∃ us atServer atClient, Inv ofClient ofServer s us atServer atClient := by
  induction h with
  | start clientId serverId => exact ⟨_, _, _, inv_start clientId serverId⟩
  | next _ he ih =>
    obtain ⟨us, atServer, atClient, h⟩ := ih
    exact h.next hprompt hrequest he

/-! ## In step -/

/-- Both sides receive. -/
def polled (ofClient ofServer : Config) (s : System) : System :=
  (s.next ofClient ofServer .pollServer).next ofClient ofServer .pollClient

/-- Nothing is on its way, and if either side receives once more, it finds nothing and writes
nothing. -/
structure Quiet (ofClient ofServer : Config) (s : System) : Prop where
  toServer : s.toServer = []
  toClient : s.toClient = []
  client : (s.client.connection.receive (clientEndpoint ofClient)).1 = .ok none
  server : (s.server.connection.receive (serverEndpoint ofServer)).1 = .ok none
  unasked : (s.next ofClient ofServer .pollServer).toClient = []

/-- The client and the server are in step. -/
structure InStep (ofClient ofServer : Config) (s : System) : Prop where
  /-- The server returns the commands that the client sends, in order, and refuses nothing. -/
  returned : s.server.returned <+: s.sent.map (.ok ∘ Command.asRead (writer ofClient))
  /-- There is a segment for every request. -/
  continues : s.answered < s.received →
    ∃ outcome, (s.client.connection.sendContinuation (clientEndpoint ofClient)).1 = .ok outcome
  /-- It is quiet when both sides have received until they found nothing, and nothing is on its
  way. -/
  quiet : (s.client.connection.receive (clientEndpoint ofClient)).1 = .ok none →
    (s.server.connection.receive (serverEndpoint ofServer)).1 = .ok none →
    (s.polled ofClient ofServer).toServer = [] → (s.polled ofClient ofServer).toClient = [] →
    (s.polled ofClient ofServer).Quiet ofClient ofServer
  /-- When it is quiet and every request has been answered, all commands have been returned. -/
  settled : s.Quiet ofClient ofServer → s.answered = s.received →
    s.client.connection.isAwaiting = false
      ∧ s.server.returned = s.sent.map (.ok ∘ Command.asRead (writer ofClient))
  /-- When it is quiet and requests have not been answered, there is only one, and all commands but
  the last have been returned. -/
  waiting : s.Quiet ofClient ofServer → s.answered ≠ s.received →
    s.client.connection.isAwaiting = true ∧ s.received = s.answered + 1
      ∧ s.server.returned = s.sent.dropLast.map (.ok ∘ Command.asRead (writer ofClient))

/-- When it is quiet, the server has returned what has been sent whole, and the client has received
a request for the next segment if one waits. -/
theorem Inv.quiet (h : Inv ofClient ofServer s us atServer atClient)
    (hquiet : s.Quiet ofClient ofServer) :
    s.server.returned = (if s.client.connection.pending = [] then s.sent else s.sent.dropLast).map
        (.ok ∘ Command.asRead (System.writer ofClient))
      ∧ s.received = s.answered + if s.client.connection.pending = [] then 0 else 1 := by
  obtain ⟨hresults, hdues⟩ := h.heard (List.flatten_nil.trans hquiet.toServer.symm) rfl
  have hcount := h.countP_isRequest (List.flatten_nil.trans hquiet.toClient.symm)
  rw [List.append_nil] at hresults hdues hcount
  obtain ⟨hreturned, hasked⟩ := h.server.settled (congrArg Connection.returned? hquiet.server)
  obtain ⟨hreturned', -⟩ := h.client.settled (congrArg Connection.returned? hquiet.client)
  obtain ⟨-, -, k, hwritten, hrequests⟩ := h.server.receive
  -- nothing has been asked for in the end
  have hnone : k = 0 := by
    have hunasked := (List.append_eq_nil_iff.1 hquiet.unasked).2
    rw [hwritten, requests_eq_replicate] at hunasked
    rcases k with _ | k
    · rfl
    · obtain ⟨hnil, -⟩ := List.append_eq_nil_iff.1 hunasked
      simp [requestLine, Bytes.crlf] at hnil
  rw [hnone, requests_eq_replicate, List.replicate_zero, List.map_nil, List.append_nil] at hrequests
  rw [← hrequests, hasked, Session.asked_eq (requests_serverEndpoint ofServer), List.length_map]
    at hcount
  refine ⟨hreturned.trans hresults, ?_⟩
  rw [received, hreturned']
  exact hcount.trans hdues

/-- Receiving again changes nothing. -/
theorem Inv.quiet_polled (h : Inv ofClient ofServer s us atServer atClient)
    (hclient : (s.client.connection.receive (clientEndpoint ofClient)).1 = .ok none)
    (hserver : (s.server.connection.receive (serverEndpoint ofServer)).1 = .ok none)
    (htoServer : (s.polled ofClient ofServer).toServer = [])
    (htoClient : (s.polled ofClient ofServer).toClient = []) :
    (s.polled ofClient ofServer).Quiet ofClient ofServer := by
  obtain ⟨hclient', -⟩ := h.client.receive_again (ω := Command) hclient
  obtain ⟨hserver', hwritten⟩ := h.server.receive_again (ω := Response) hserver
  refine ⟨htoServer, htoClient, hclient', hserver', ?_⟩
  exact List.append_eq_nil_iff.2 ⟨htoClient, hwritten⟩

/-- A client and a server stay in step, whatever they send and however it arrives. -/
theorem inStep_of_reachable (hprompt : Byte.lf ∉ Utf8.encode ofServer.imap.continuationPrompt)
    (hrequest : (requestLine ofServer).length ≤ ofClient.limits.maxLineLength)
    (h : Reachable ofClient ofServer s) : InStep ofClient ofServer s := by
  obtain ⟨us, atServer, atClient, hinv⟩ := h.inv hprompt hrequest
  refine ⟨hinv.returned_prefix, fun hlt => ?_, hinv.quiet_polled, fun hquiet heq => ?_,
    fun hquiet hne => ?_⟩
  · obtain ⟨segment, pending, hpending⟩ := List.exists_cons_of_ne_nil (hinv.pending_ne_nil hlt)
    obtain ⟨outcome, link, hsend, -, -⟩ := hinv.client.sendContinuation hpending
    exact ⟨outcome, congrArg Prod.fst hsend⟩
  · obtain ⟨hreturned, hreceived⟩ := hinv.quiet hquiet
    by_cases hpending : s.client.connection.pending = []
    · rw [if_pos hpending] at hreturned
      refine ⟨?_, hreturned⟩
      rw [Connection.isAwaiting, hpending]
      rfl
    · rw [if_neg hpending] at hreceived
      omega
  · obtain ⟨hreturned, hreceived⟩ := hinv.quiet hquiet
    by_cases hpending : s.client.connection.pending = []
    · rw [if_pos hpending] at hreceived
      omega
    · rw [if_neg hpending] at hreturned hreceived
      refine ⟨?_, hreceived, hreturned⟩
      simpa [Connection.isAwaiting] using hpending

/-- A client waits before it sends a literal, and goes on when it has received the request, of which
the first part came alone. -/
theorem inStep_of_reachable_login :
    let login : Command := {
      tag := Bytes.ascii "a", verb := Bytes.ascii "LOGIN"
      args := [.literal (Bytes.ascii "joe") false] }
    let events : List Event := [.send login, .carryToServer 4, .pollServer, .carryToServer 100,
      .pollServer, .carryToClient 10, .pollClient, .carryToClient 100, .pollClient]
    let asked := events.foldl (next {} {}) (start {} {} "1" "2")
    let s := [.answer, .carryToServer 100, .pollServer, .pollServer].foldl (next {} {}) asked
    Byte.lf ∉ Utf8.encode ({} : Config).imap.continuationPrompt
      ∧ (requestLine {}).length ≤ ({} : Config).limits.maxLineLength
      ∧ Reachable {} {} s ∧ InStep {} {} s ∧ s.Quiet {} {} ∧ s.answered = s.received := by
  intro login events asked s
  have hfits : login.Fits (writer {}) ({} : Config).limits := by
    refine ⟨⟨⟨by decide, by decide +kernel⟩, ⟨by decide, by decide +kernel⟩,
      .inr (by decide +kernel), ⟨by decide, by decide⟩, trivial⟩, by decide +kernel⟩
  have hprompt : Byte.lf ∉ Utf8.encode ({} : Config).imap.continuationPrompt := by decide +kernel
  have hrequest : (requestLine {}).length ≤ ({} : Config).limits.maxLineLength := by decide +kernel
  have hasked : Reachable {} {} asked := by
    refine .next (e := .pollClient) ?_ trivial
    refine .next (e := .carryToClient 100) ?_ trivial
    refine .next (e := .pollClient) ?_ trivial
    refine .next (e := .carryToClient 10) ?_ trivial
    refine .next (e := .pollServer) ?_ trivial
    refine .next (e := .carryToServer 100) ?_ trivial
    refine .next (e := .pollServer) ?_ trivial
    refine .next (e := .carryToServer 4) ?_ trivial
    exact .next (e := .send login) (.start "1" "2") hfits
  have hlt : asked.answered < asked.received := by decide +kernel
  have hreachable : Reachable {} {} s := by
    refine .next (e := .pollServer) ?_ trivial
    refine .next (e := .pollServer) ?_ trivial
    refine .next (e := .carryToServer 100) ?_ trivial
    exact .next (e := .answer) hasked hlt
  refine ⟨hprompt, hrequest, hreachable, inStep_of_reachable hprompt hrequest hreachable, ?_,
    by decide +kernel⟩
  exact ⟨by decide +kernel, by decide +kernel, by decide +kernel, by decide +kernel,
    by decide +kernel⟩

end System

end Imap

end MailProtocol
