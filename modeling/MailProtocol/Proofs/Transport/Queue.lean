import MailProtocol.Proofs.Bytes.Lines
import MailProtocol.Transport

/-!
# Transports as queues

A transport is a queue of bytes. Reading puts what the stream delivers at its end, and lines, exact
numbers of bytes and what is dropped come off its front. So what has been given away, and then what
is there, is at any time what the streams have delivered (`Transport.given_append_run`), also when
the stream was replaced on the way.

A read uses the buffer itself as its space: the buffer grows by as much as is asked for, the stream
writes into that, and what it did not fill is cut off again. The stream may leave anything in the
space that it did not fill (`Transport.fillInPlace_eq`).

What each use does in one state is said by `Transport.IsQueue`, and it holds of every transport. The
uses may come in any order, and between them the stream may become any other, so nothing is assumed
of what reading it gives but that it is no more than what was asked for.
-/

namespace MailProtocol

/-- A read gives at most what is asked for. -/
theorem Stream.length_le_of_read {s s' : Stream} {n : Nat} {d : Bytes}
    (h : s.read n = (.ok d, s')) : d.length ≤ n := by
  unfold read at h
  split at h
  · split at h <;> simp_all
  · simp at h
  · obtain ⟨rfl, -⟩ := by simpa using h
    exact List.length_take_le ..

namespace Transport

/-! ## Reading in place -/

/-- The bytes `space` written over what stands in `buffer` from `start` on, as far as it reaches. -/
def overwrite (buffer : Bytes) (start : Nat) (space : Bytes) : Bytes :=
  buffer.take start ++ space.take (buffer.length - start) ++ buffer.drop (start + space.length)

/-- `Transport.fill` with the end of the buffer as the space to read into. Behind what it read, the
stream leaves `stray` there. -/
def fillInPlace (t : Transport) (stray : Bytes) : Except StreamError Nat × Transport :=
  match t.stream with
  | none => (.error .transportClosed, t)
  | some stream =>
    let start := t.buffer.length
    let grown := t.buffer ++ List.replicate (max t.chunkSize 1) 0
    let (result, stream) := stream.read (grown.length - start)
    let filled := overwrite grown start (result.toOption.getD [] ++ stray)
    let count := (result.toOption.map List.length).getD 0
    (result.map List.length,
      { t with stream := some stream, buffer := filled.take (start + count) })

/-- What was there and what was read remains when the rest of the space is cut off. -/
theorem take_overwrite_grown (buffer : Bytes) {d : Bytes} {n : Nat} (h : d.length ≤ n)
    (stray : Bytes) :
    (overwrite (buffer ++ List.replicate n 0) buffer.length (d ++ stray)).take
      (buffer.length + d.length) = buffer ++ d := by
  have hspace : (d ++ stray).take n = d ++ stray.take (n - d.length) := by
    rw [List.take_append, List.take_of_length_le h]
  rw [overwrite, List.take_left, List.length_append, List.length_replicate, Nat.add_sub_cancel_left,
    hspace, ← List.append_assoc, List.append_assoc, List.take_left' (List.length_append ..)]

/-- Reading in place reads, whatever the stream leaves behind what it read. -/
theorem fillInPlace_eq (t : Transport) (stray : Bytes) : t.fillInPlace stray = t.fill := by
  unfold fillInPlace fill
  rcases t.stream with _ | stream
  · rfl
  · simp only [List.length_append, List.length_replicate, Nat.add_sub_cancel_left]
    rcases hr : stream.read (max t.chunkSize 1) with ⟨_ | d, stream'⟩
    · have hcut := take_overwrite_grown t.buffer (d := []) (Nat.zero_le (max t.chunkSize 1)) stray
      simp only [List.nil_append, List.length_nil, List.append_nil] at hcut
      simp only [Except.map, Except.toOption, Option.map_none, Option.getD_none, List.nil_append,
        hcut]
    · have hcut := take_overwrite_grown t.buffer (Stream.length_le_of_read hr) stray
      simp only [Except.map, Except.toOption, Option.map_some, Option.getD_some, hcut]

/-! ## What each use does -/

/-- The string `line` is the shortest of the fronts of `s` that end in a line feed. -/
def IsFirstLine (line s : Bytes) : Prop :=
  (line <+: s ∧ line.getLast? = some Byte.lf)
  ∧ ∀ front, front <+: s → front.getLast? = some Byte.lf → line.length ≤ front.length

/-- A line is the shortest front that ends in a line feed. -/
theorem isFirstLine_of_isLine {line : Bytes} (h : line.IsLine) (rest : Bytes) :
    IsFirstLine line (line ++ rest) := by
  obtain ⟨content, hcontent, rfl⟩ := h
  refine ⟨⟨List.prefix_append .., by simp⟩, fun front hfront hlast => ?_⟩
  -- a shorter front would be a front of the content, and end in a line feed all the same
  by_contra hlt
  rw [List.length_append, List.length_singleton] at hlt
  rw [List.append_assoc] at hfront
  have hinside : front <+: content :=
    List.prefix_of_prefix_length_le hfront (List.prefix_append ..) (by omega)
  exact hcontent (hinside.mem (List.mem_of_getLast? hlast))

/-- What the uses of a transport do in one state of it. -/
structure IsQueue (t : Transport) : Prop where
  /-- Reading can be done in place. -/
  inPlace : ∀ stray, t.fillInPlace stray = t.fill
  /-- What the stream gives, up to the size of a chunk, joins the end. -/
  fill_ok : ∀ {n t'}, t.fill = (.ok n, t') → ∃ stream d stream',
    t.stream = some stream ∧ stream.read (max t.chunkSize 1) = (.ok d, stream')
    ∧ d.length = n ∧ n ≤ max t.chunkSize 1
    ∧ t' = { t with stream := some stream', buffer := t.buffer ++ d }
  /-- No bytes are reported only at the end of the stream, and nothing joins then. -/
  fill_end : ∀ {t'}, t.fill = (.ok 0, t') → t'.buffer = t.buffer ∧ ∃ stream,
    t.stream = some stream ∧ (stream.read (max t.chunkSize 1)).1 = .ok []
  /-- A failure to read is the stream's, or says that there is none, and nothing joins. -/
  fill_error : ∀ {e t'}, t.fill = (.error e, t') → t'.buffer = t.buffer
    ∧ (t.stream = none ∧ e = .transportClosed
      ∨ ∃ stream, t.stream = some stream ∧ (stream.read (max t.chunkSize 1)).1 = .error e)
  /-- A line is the shortest front that ends in a line feed, and what is behind it remains. -/
  readLine_some : ∀ {line t'}, t.readLine = (some line, t') → IsFirstLine line t.buffer
    ∧ line ++ t'.buffer = t.buffer ∧ t' = { t with buffer := t'.buffer }
  /-- There is no line only where there is no line feed, and then nothing changes. -/
  readLine_none : ∀ {t'}, t.readLine = (none, t') → Byte.lf ∉ t.buffer ∧ t' = t
  /-- As many bytes as are wanted are taken, if they are there. -/
  readExact_some : ∀ {n bytes t'}, t.readExact n = (some bytes, t') → bytes.length = n
    ∧ bytes ++ t'.buffer = t.buffer ∧ t' = { t with buffer := t'.buffer }
  /-- They are not taken only where too few are there, and then nothing changes. -/
  readExact_none : ∀ {n t'}, t.readExact n = (none, t') → t.buffer.length < n ∧ t' = t
  /-- As many bytes as are to be dropped are dropped, or all that there are. -/
  skip : ∀ n, t.skip n = (min n t.buffer.length, { t with buffer := t.buffer.drop n })
  /-- All bytes can be dropped. -/
  discard : t.discard = (t.buffer.length, { t with buffer := [] })
  /-- Writing leaves what is there. -/
  writeAll : ∀ data, (t.writeAll data).2.buffer = t.buffer
  /-- Flushing leaves what is there. -/
  flush : t.flush.2.buffer = t.buffer
  /-- Replacing the stream leaves what is there. -/
  upgrade : ∀ handshake, (t.upgrade handshake).2.buffer = t.buffer
  /-- There is a stream that has not been replaced yet, and the replacement is made. -/
  upgrade_ok : ∀ {handshake t'}, t.upgrade handshake = (.ok (), t') → t.upgraded = false
    ∧ t'.upgraded = true ∧ ∃ stream, t.stream = some stream ∧ ∃ stream',
      handshake stream = .ok stream' ∧ t'.stream = some stream'
  /-- Where it is not, nothing was tried and nothing changes, or the transport is closed. -/
  upgrade_error : ∀ {handshake e t'}, t.upgrade handshake = (.error e, t') →
    (e = .alreadyUpgraded ∧ t.upgraded = true ∧ t' = t)
    ∨ (e = .closed ∧ t.stream = none ∧ t' = t)
    ∨ (∃ stream, t.stream = some stream ∧ handshake stream = .error e) ∧ t'.isOpen = false
  /-- Closing drops what is there, and the stream. -/
  close : t.close.buffer = [] ∧ t.close.isOpen = false

theorem exists_read_of_fill {t t' : Transport} {n : Nat} (h : t.fill = (.ok n, t')) :
    ∃ stream d stream', t.stream = some stream
      ∧ stream.read (max t.chunkSize 1) = (.ok d, stream') ∧ d.length = n
      ∧ t' = { t with stream := some stream', buffer := t.buffer ++ d } := by
  unfold fill at h
  split at h
  · simp at h
  · next stream hs =>
    split at h
    · simp at h
    · next d stream' hr =>
      obtain ⟨rfl, rfl⟩ := by simpa using h
      exact ⟨stream, d, stream', hs, hr, rfl, rfl⟩

theorem of_fill_error {t t' : Transport} {e : StreamError} (h : t.fill = (.error e, t')) :
    t'.buffer = t.buffer ∧ (t.stream = none ∧ e = .transportClosed
      ∨ ∃ stream, t.stream = some stream
        ∧ (stream.read (max t.chunkSize 1)).1 = .error e) := by
  unfold fill at h
  split at h
  · next hs =>
    obtain ⟨rfl, rfl⟩ := by simpa using h
    exact ⟨rfl, .inl ⟨hs, rfl⟩⟩
  · next stream hs =>
    split at h
    · next hr =>
      obtain ⟨rfl, rfl⟩ := by simpa using h
      exact ⟨rfl, .inr ⟨stream, hs, by rw [hr]⟩⟩
    · simp at h

theorem of_readLine_some {t t' : Transport} {line : Bytes} (h : t.readLine = (some line, t')) :
    IsFirstLine line t.buffer ∧ line ++ t'.buffer = t.buffer
      ∧ t' = { t with buffer := t'.buffer } := by
  unfold readLine at h
  split at h
  · simp at h
  · next l rest hsplit =>
    obtain ⟨rfl, rfl⟩ := by simpa using h
    obtain ⟨hline, heq⟩ := Bytes.splitLine?_eq_some_iff.1 hsplit
    exact ⟨heq ▸ isFirstLine_of_isLine hline rest, heq.symm, rfl⟩

theorem of_readLine_none {t t' : Transport} (h : t.readLine = (none, t')) :
    Byte.lf ∉ t.buffer ∧ t' = t := by
  unfold readLine at h
  split at h
  · next hsplit => exact ⟨Bytes.splitLine?_eq_none_iff.1 hsplit, by simpa using h.symm⟩
  · simp at h

theorem of_readExact_some {t t' : Transport} {n : Nat} {bytes : Bytes}
    (h : t.readExact n = (some bytes, t')) : bytes.length = n
      ∧ bytes ++ t'.buffer = t.buffer ∧ t' = { t with buffer := t'.buffer } := by
  unfold readExact at h
  split at h
  · next hn =>
    obtain ⟨rfl, rfl⟩ := by simpa using h
    exact ⟨List.length_take_of_le hn, List.take_append_drop .., rfl⟩
  · simp at h

theorem of_readExact_none {t t' : Transport} {n : Nat} (h : t.readExact n = (none, t')) :
    t.buffer.length < n ∧ t' = t := by
  unfold readExact at h
  split at h
  · simp at h
  · next hn => exact ⟨Nat.lt_of_not_le hn, by simpa using h.symm⟩

/-- What replacing the stream can come to. -/
theorem upgrade_cases (t : Transport) (handshake : Stream → Except Error Stream) :
    (t.upgraded = true ∧ t.upgrade handshake = (.error .alreadyUpgraded, t))
    ∨ (t.upgraded = false ∧ t.stream = none ∧ t.upgrade handshake = (.error .closed, t))
    ∨ t.upgraded = false ∧ ∃ stream, t.stream = some stream
      ∧ ((∃ e, handshake stream = .error e
          ∧ t.upgrade handshake = (.error e, { t with stream := none }))
        ∨ ∃ stream', handshake stream = .ok stream'
          ∧ t.upgrade handshake
            = (.ok (), { t with stream := some stream', upgraded := true })) := by
  cases hu : t.upgraded with
  | true => exact .inl ⟨rfl, by simp [upgrade, hu]⟩
  | false =>
    refine .inr ?_
    cases hs : t.stream with
    | none => exact .inl ⟨rfl, rfl, by simp [upgrade, hu, hs]⟩
    | some stream =>
      refine .inr ⟨rfl, stream, rfl, ?_⟩
      cases hh : handshake stream with
      | error e => exact .inl ⟨e, rfl, by simp [upgrade, hu, hs, hh]⟩
      | ok stream' => exact .inr ⟨stream', rfl, by simp [upgrade, hu, hs, hh]⟩

theorem buffer_upgrade (t : Transport) (handshake : Stream → Except Error Stream) :
    (t.upgrade handshake).2.buffer = t.buffer := by
  rcases t.upgrade_cases handshake with ⟨-, h⟩ | ⟨-, -, h⟩ | ⟨-, _, -, ⟨_, -, h⟩ | ⟨_, -, h⟩⟩ <;>
    rw [h]

/-- Every transport is a queue. -/
theorem isQueue (t : Transport) : t.IsQueue where
  inPlace := t.fillInPlace_eq
  fill_ok h := by
    obtain ⟨stream, d, stream', hs, hr, rfl, rfl⟩ := exists_read_of_fill h
    exact ⟨stream, d, stream', hs, hr, rfl, Stream.length_le_of_read hr, rfl⟩
  fill_end h := by
    obtain ⟨stream, d, stream', hs, hr, hd, rfl⟩ := exists_read_of_fill h
    obtain rfl := List.length_eq_zero_iff.1 hd
    exact ⟨List.append_nil _, stream, hs, by rw [hr]⟩
  fill_error := of_fill_error
  readLine_some := of_readLine_some
  readLine_none := of_readLine_none
  readExact_some := of_readExact_some
  readExact_none := of_readExact_none
  skip _ := rfl
  discard := rfl
  writeAll data := (remaining_writeAll t data).2
  flush := (remaining_flush t).2
  upgrade := t.buffer_upgrade
  upgrade_ok {handshake t'} h := by
    rcases t.upgrade_cases handshake with
      ⟨-, heq⟩ | ⟨-, -, heq⟩ | ⟨hu, stream, hs, ⟨e, -, heq⟩ | ⟨stream', hok, heq⟩⟩
    · simp [heq] at h
    · simp [heq] at h
    · simp [heq] at h
    · obtain rfl : _ = t' := (Prod.mk.inj (heq.symm.trans h)).2
      exact ⟨hu, rfl, stream, hs, stream', hok, rfl⟩
  upgrade_error {handshake e t'} h := by
    rcases t.upgrade_cases handshake with
      ⟨hu, heq⟩ | ⟨-, hs, heq⟩ | ⟨-, stream, hs, ⟨e', he, heq⟩ | ⟨stream', -, heq⟩⟩
    · obtain ⟨rfl, rfl⟩ := by simpa using heq.symm.trans h
      exact .inl ⟨rfl, hu, rfl⟩
    · obtain ⟨rfl, rfl⟩ := by simpa using heq.symm.trans h
      exact .inr (.inl ⟨rfl, hs, rfl⟩)
    · obtain ⟨rfl, rfl⟩ := by simpa using heq.symm.trans h
      exact .inr (.inr ⟨⟨stream, hs, he⟩, rfl⟩)
    · simp [heq] at h
  close := ⟨rfl, rfl⟩

/-! ## One use after another -/

/-- What can be done to a transport, and what can happen to its stream meanwhile. -/
inductive Use where
  | fill
  | readLine
  | readExact (n : Nat)
  | skip (n : Nat)
  | discard
  | write (data : Bytes)
  | flush
  | upgrade (handshake : Stream → Except Error Stream)
  | close
  /-- The stream becomes another one. -/
  | meanwhile (f : Stream → Stream)

/-- The transport after a use. -/
def use (t : Transport) : Use → Transport
  | .fill => t.fill.2
  | .readLine => t.readLine.2
  | .readExact n => (t.readExact n).2
  | .skip n => (t.skip n).2
  | .discard => t.discard.2
  | .write data => (t.writeAll data).2
  | .flush => t.flush.2
  | .upgrade handshake => (t.upgrade handshake).2
  | .close => t.close
  | .meanwhile f => t.mapStream f

/-- What the stream delivers in a use. -/
def delivers (t : Transport) : Use → Bytes
  | .fill => ((t.stream.map (·.read (max t.chunkSize 1))).bind (·.1.toOption)).getD []
  | _ => []

/-- What a use hands out or drops. -/
def gives (t : Transport) : Use → Bytes
  | .readLine => t.readLine.1.getD []
  | .readExact n => (t.readExact n).1.getD []
  | .skip n => t.buffer.take (t.skip n).1
  | .discard => t.buffer.take t.discard.1
  | .close => t.buffer
  | _ => []

/-- How many times a use replaces the stream. -/
def replaces (t : Transport) : Use → Nat
  | .upgrade handshake => match (t.upgrade handshake).1 with
    | .ok () => 1
    | .error _ => 0
  | _ => 0

/-- Whatever a use gives away was in front, and whatever the stream delivers comes behind. -/
theorem gives_append_use (t : Transport) (u : Use) :
    t.gives u ++ (t.use u).buffer = t.buffer ++ t.delivers u := by
  cases u with
  | fill =>
    simp only [gives, use, delivers, List.nil_append]
    rcases h : t.fill with ⟨e | n, t'⟩
    · obtain ⟨heq, ⟨hs, -⟩ | ⟨stream, hs, hr⟩⟩ := of_fill_error h
      · simp [heq, hs]
      · simp [heq, hs, hr, Except.toOption]
    · obtain ⟨stream, d, stream', hs, hr, -, rfl⟩ := exists_read_of_fill h
      simp [hs, hr, Except.toOption]
  | readLine =>
    rcases h : t.readLine with ⟨_ | line, t'⟩
    · simp [gives, use, delivers, h, (of_readLine_none h).2]
    · simp [gives, use, delivers, h, (of_readLine_some h).2.1]
  | readExact n =>
    rcases h : t.readExact n with ⟨_ | bytes, t'⟩
    · simp [gives, use, delivers, h, (of_readExact_none h).2]
    · simp [gives, use, delivers, h, (of_readExact_some h).2.1]
  | skip n =>
    have hdrop : t.buffer.drop n = t.buffer.drop (min n t.buffer.length) := by
      rcases Nat.le_total n t.buffer.length with hle | hle
      · rw [Nat.min_eq_left hle]
      · rw [Nat.min_eq_right hle, List.drop_of_length_le hle, List.drop_length]
    simp only [gives, use, delivers, Transport.skip, List.append_nil]
    rw [hdrop, List.take_append_drop]
  | discard => simp [gives, use, delivers, Transport.discard]
  | write data => simpa [gives, use, delivers] using (remaining_writeAll t data).2
  | flush => simpa [gives, use, delivers] using (remaining_flush t).2
  | upgrade handshake => simpa [gives, use, delivers] using t.buffer_upgrade handshake
  | close => simp [gives, use, delivers, Transport.close]
  | meanwhile f => simp [gives, use, delivers, mapStream]

/-- Whether there is a stream, and whether it has been replaced, is as it was. -/
def SameStanding (t t' : Transport) : Prop := t'.isOpen = t.isOpen ∧ t'.upgraded = t.upgraded

/-- Only closing and replacing the stream change how the transport stands. -/
theorem sameStanding_use (t : Transport) (u : Use) : (t.SameStanding (t.use u) ∧ t.replaces u = 0)
    ∨ u = .close ∨ ∃ handshake, u = .upgrade handshake := by
  cases u with
  | fill =>
    refine .inl ⟨?_, rfl⟩
    change t.SameStanding t.fill.2
    unfold fill
    cases hs : t.stream with
    | none => exact ⟨rfl, rfl⟩
    | some stream =>
      simp only
      split <;> exact ⟨by simp [isOpen, hs], rfl⟩
  | readLine =>
    refine .inl ⟨?_, rfl⟩
    change t.SameStanding t.readLine.2
    unfold readLine
    split <;> exact ⟨rfl, rfl⟩
  | readExact n =>
    refine .inl ⟨?_, rfl⟩
    change t.SameStanding (t.readExact n).2
    unfold readExact
    split <;> exact ⟨rfl, rfl⟩
  | skip | discard => exact .inl ⟨⟨rfl, rfl⟩, rfl⟩
  | write data =>
    refine .inl ⟨?_, rfl⟩
    change t.SameStanding (t.writeAll data).2
    unfold writeAll
    cases hs : t.stream with
    | none => exact ⟨rfl, rfl⟩
    | some stream => exact ⟨by simp [isOpen, hs], rfl⟩
  | flush =>
    refine .inl ⟨?_, rfl⟩
    change t.SameStanding t.flush.2
    unfold Transport.flush
    cases hs : t.stream with
    | none => exact ⟨rfl, rfl⟩
    | some stream => exact ⟨by simp [isOpen, hs], rfl⟩
  | upgrade handshake => exact .inr (.inr ⟨handshake, rfl⟩)
  | close => exact .inr (.inl rfl)
  | meanwhile f => exact .inl ⟨⟨by simp [use, mapStream, isOpen], rfl⟩, rfl⟩

/-- Only replacing the stream marks the transport, and a marked one refuses it. -/
theorem upgraded_add_replaces (t : Transport) (u : Use) :
    t.upgraded.toNat + t.replaces u = (t.use u).upgraded.toNat := by
  rcases t.sameStanding_use u with ⟨⟨-, hu⟩, hr⟩ | rfl | ⟨handshake, rfl⟩
  · rw [hu, hr, Nat.add_zero]
  · rfl
  · rcases t.upgrade_cases handshake with
      ⟨hu, heq⟩ | ⟨hu, -, heq⟩ | ⟨hu, _, -, ⟨_, -, heq⟩ | ⟨_, -, heq⟩⟩ <;>
      simp [replaces, use, heq, hu]

/-- A closed transport stays closed, and its stream is not replaced. -/
theorem use_of_closed {t : Transport} (h : t.isOpen = false) (u : Use) :
    (t.use u).isOpen = false ∧ t.replaces u = 0 := by
  rcases t.sameStanding_use u with ⟨⟨ho, -⟩, hr⟩ | rfl | ⟨handshake, rfl⟩
  · exact ⟨ho.trans h, hr⟩
  · exact ⟨rfl, rfl⟩
  · rcases t.upgrade_cases handshake with ⟨-, heq⟩ | ⟨-, -, heq⟩ | ⟨-, _, hs, -⟩
    · exact ⟨by rw [use, heq, h], by simp only [replaces, heq]⟩
    · exact ⟨by rw [use, heq, h], by simp only [replaces, heq]⟩
    · simp [isOpen, hs] at h

/-- The transport after uses. -/
def run (t : Transport) : List Use → Transport
  | [] => t
  | u :: us => (t.use u).run us

/-- What the streams have delivered in uses. -/
def delivered (t : Transport) : List Use → Bytes
  | [] => []
  | u :: us => t.delivers u ++ (t.use u).delivered us

/-- What uses have handed out or dropped. -/
def given (t : Transport) : List Use → Bytes
  | [] => []
  | u :: us => t.gives u ++ (t.use u).given us

/-- How many times uses have replaced the stream. -/
def replaced (t : Transport) : List Use → Nat
  | [] => 0
  | u :: us => t.replaces u + (t.use u).replaced us

/-- What has been given away, and then what is there, is what was there and what has come. -/
theorem given_append_run (t : Transport) (us : List Use) :
    t.given us ++ (t.run us).buffer = t.buffer ++ t.delivered us := by
  induction us generalizing t with
  | nil => simp [given, run, delivered]
  | cons u us ih =>
    calc t.gives u ++ (t.use u).given us ++ ((t.use u).run us).buffer
        = t.gives u ++ ((t.use u).buffer ++ (t.use u).delivered us) := by
          rw [List.append_assoc, ih]
      _ = t.buffer ++ (t.delivers u ++ (t.use u).delivered us) := by
          rw [← List.append_assoc, gives_append_use, List.append_assoc]

/-- The mark counts how many times the stream has been replaced. -/
theorem upgraded_add_replaced (t : Transport) (us : List Use) :
    t.upgraded.toNat + t.replaced us = (t.run us).upgraded.toNat := by
  induction us generalizing t with
  | nil => rfl
  | cons u us ih =>
    rw [replaced, run, ← ih, ← t.upgraded_add_replaces u, Nat.add_assoc]

/-- A closed transport stays closed whatever is done to it. -/
theorem run_of_closed {t : Transport} (h : t.isOpen = false) (us : List Use) :
    (t.run us).isOpen = false ∧ t.replaced us = 0 := by
  induction us generalizing t with
  | nil => exact ⟨h, rfl⟩
  | cons u us ih =>
    obtain ⟨hclosed, hkept⟩ := use_of_closed h u
    obtain ⟨hrun, hnone⟩ := ih hclosed
    exact ⟨hrun, by rw [replaced, hkept, hnone]⟩

/-- Whatever is done to a transport, what has been handed out or dropped, and then what is buffered,
is what the streams have delivered, and each use does to it what it does to a queue. The stream is
replaced once at most, and no longer once the transport is closed. -/
theorem queues_run (stream : Stream) (chunkSize : Nat) (us : List Use) :
    let start := ofStream stream chunkSize
    let t := start.run us
    start.given us ++ t.buffer = start.delivered us
    ∧ t.IsQueue
    ∧ start.replaced us ≤ 1
    ∧ (t.isOpen = false → ∀ later, (t.run later).isOpen = false ∧ t.replaced later = 0) := by
  refine ⟨given_append_run .., isQueue _, ?_, fun hclosed => run_of_closed hclosed⟩
  have hcount := upgraded_add_replaced (ofStream stream chunkSize) us
  have hmark := Bool.toNat_le ((ofStream stream chunkSize).run us).upgraded
  omega

end Transport

end MailProtocol
