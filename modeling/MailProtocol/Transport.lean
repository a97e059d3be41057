import MailProtocol.Bytes.Split
import MailProtocol.Stream

/-!
# Transports

A transport holds what has been read from a stream and not yet used. Taking lines and bytes out of
it looks only at what is there; `Transport.fill` alone reads from the stream.

The stream can be replaced once (`Transport.upgrade`), as is done to begin encryption. What has been
read before stays in front.
-/

namespace MailProtocol

/-- A stream and what has been read from it. -/
structure Transport where
  /-- The stream, while the transport is open. -/
  stream : Option Stream
  /-- What has been read and not yet used. -/
  buffer : Bytes := []
  /-- How many bytes to ask the stream for at a time; at least one is asked for. -/
  chunkSize : Nat
  /-- The stream has been replaced. -/
  upgraded : Bool := false
deriving DecidableEq, Repr

namespace Transport

/-- A transport over a stream. -/
def ofStream (stream : Stream) (chunkSize : Nat) : Transport := { stream := some stream, chunkSize }

/-- The transport has a stream. -/
def isOpen (t : Transport) : Bool := t.stream.isSome

/-- Read once from the stream: how many bytes came, none at its end. -/
def fill (t : Transport) : Except StreamError Nat × Transport :=
  match t.stream with
  | none => (.error .transportClosed, t)
  | some stream =>
    match stream.read (max t.chunkSize 1) with
    | (.error e, stream) => (.error e, { t with stream := some stream })
    | (.ok d, stream) => (.ok d.length, { t with stream := some stream, buffer := t.buffer ++ d })

/-- Take the first line, if a whole one is there. -/
def readLine (t : Transport) : Option Bytes × Transport :=
  match t.buffer.splitLine? with
  | none => (none, t)
  | some (line, rest) => (some line, { t with buffer := rest })

/-- Take exactly `n` bytes, if so many are there. -/
def readExact (t : Transport) (n : Nat) : Option Bytes × Transport :=
  if n ≤ t.buffer.length then (some (t.buffer.take n), { t with buffer := t.buffer.drop n })
  else (none, t)

/-- Drop up to `n` bytes: how many were dropped. -/
def skip (t : Transport) (n : Nat) : Nat × Transport :=
  (min n t.buffer.length, { t with buffer := t.buffer.drop n })

/-- Drop all that is there: how many bytes were dropped. -/
def discard (t : Transport) : Nat × Transport := (t.buffer.length, { t with buffer := [] })

/-- Write all of `data` to the stream. -/
def writeAll (t : Transport) (data : Bytes) : Except StreamError Unit × Transport :=
  match t.stream with
  | none => (.error .transportClosed, t)
  | some stream =>
    let (result, stream) := stream.writeAll data
    (result, { t with stream := some stream })

/-- Flush the stream. -/
def flush (t : Transport) : Except StreamError Unit × Transport :=
  match t.stream with
  | none => (.error .transportClosed, t)
  | some stream =>
    let (result, stream) := stream.flush
    (result, { t with stream := some stream })

/-- Replace the stream by what `handshake` makes of it. If that fails, the stream is lost. -/
def upgrade (t : Transport) (handshake : Stream → Except Error Stream) :
    Except Error Unit × Transport :=
  if t.upgraded then (.error .alreadyUpgraded, t)
  else match t.stream with
    | none => (.error .closed, t)
    | some stream =>
      match handshake stream with
      | .error e => (.error e, { t with stream := none })
      | .ok stream => (.ok (), { t with stream := some stream, upgraded := true })

/-- Give up the stream and all that has been read. -/
def close (t : Transport) : Transport := { t with stream := none, buffer := [] }

/-- Change the stream, if there is one. -/
def mapStream (t : Transport) (f : Stream → Stream) : Transport :=
  { t with stream := t.stream.map f }

/-! ## What is left to come -/

/-- How much is left to come from the stream. -/
def remaining (t : Transport) : Nat := (t.stream.map Stream.remaining).getD 0

/-- Reading moves bytes from what is to come into the buffer. -/
theorem remaining_of_fill {t t' : Transport} {n : Nat} (h : t.fill = (.ok n, t')) :
    t'.remaining + n ≤ t.remaining ∧ t'.buffer.length = t.buffer.length + n := by
  unfold fill at h
  split at h
  · simp at h
  · next hs =>
    split at h
    · simp at h
    · next hr =>
      have := Stream.remaining_of_read hr
      simp only [Prod.mk.injEq, Except.ok.injEq] at h
      obtain ⟨rfl, rfl⟩ := h
      simp_all [remaining]

/-- A failure that interrupts reading is gone afterwards. -/
theorem remaining_of_fill_interrupted {t t' : Transport} {e : StreamError}
    (h : t.fill = (.error e, t')) (he : e.kind = .interrupted) :
    t'.remaining < t.remaining ∧ t'.buffer = t.buffer := by
  unfold fill at h
  split at h
  · simp only [Prod.mk.injEq, Except.error.injEq] at h
    simp [← h.1, StreamError.transportClosed] at he
  · next hs =>
    split at h
    · next hr =>
      simp only [Prod.mk.injEq, Except.error.injEq] at h
      obtain ⟨rfl, rfl⟩ := h
      rcases Stream.remaining_of_read_error hr with ⟨rfl, -⟩ | hlt
      · simp [StreamError.nothingYet] at he
      · simp [remaining, hs, hlt]
    · simp at h

/-- Writing leaves what is to come and what is there. -/
theorem remaining_writeAll (t : Transport) (data : Bytes) :
    (t.writeAll data).2.remaining = t.remaining ∧ (t.writeAll data).2.buffer = t.buffer := by
  unfold writeAll
  split
  · simp
  · next hs => simp [remaining, hs, Stream.remaining, Stream.incoming_writeAll]

/-- Flushing leaves what is to come and what is there. -/
theorem remaining_flush (t : Transport) :
    t.flush.2.remaining = t.remaining ∧ t.flush.2.buffer = t.buffer := by
  unfold flush
  split
  · simp
  · next hs => simp [remaining, hs, Stream.remaining, Stream.incoming_flush]

end Transport

end MailProtocol
