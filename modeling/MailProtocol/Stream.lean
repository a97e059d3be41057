import MailProtocol.Bytes.Basic
import MailProtocol.Error

/-!
# Streams

A stream is known by what it is going to do: the pieces and failures that reading it will give, one
per read, and the failures of writing and flushing. What is written to it is recorded write by
write.

Reading gives at most what is asked for, and what is left of a piece stays in front. No bytes mean
the end of the stream. When nothing is left to come, further reads give either that or the failure
that says "nothing yet". Writing tries again where it is interrupted. Writes and flushes may go well
for some time before they begin to fail.
-/

namespace MailProtocol

/-- What one read of a stream gives. -/
inductive ReadEvent where
  | data (s : Bytes)
  | failure (e : StreamError)
deriving DecidableEq, Repr

/-- A failure counts as one, and so does a piece beside its bytes. -/
def ReadEvent.size : ReadEvent → Nat
  | .data s => s.length + 1
  | .failure _ => 1

/-- A stream of bytes in both directions. -/
structure Stream where
  /-- What reading will give. -/
  incoming : List ReadEvent := []
  /-- When nothing is left to come, more may yet come, and the stream is not at its end. -/
  staysOpen : Bool := false
  /-- What has been written, write by write. -/
  written : List Bytes := []
  /-- The failures of the next writes. -/
  writeFailures : List StreamError := []
  /-- The failures of the next flushes. -/
  flushFailures : List StreamError := []
  /-- How many writes go well before the first of their failures. -/
  writesBefore : Nat := 0
  /-- How many flushes go well before the first of their failures. -/
  flushesBefore : Nat := 0
deriving DecidableEq, Repr

namespace Stream

/-- Add what a later read will give. -/
def push (s : Stream) (e : ReadEvent) : Stream := { s with incoming := s.incoming ++ [e] }

/-- What remains of a piece in front of later events. -/
def putBack (rest : Bytes) (later : List ReadEvent) : List ReadEvent :=
  match rest with
  | [] => later
  | rest => .data rest :: later

/-- Read at most `n` bytes. -/
def read (s : Stream) (n : Nat) : Except StreamError Bytes × Stream :=
  match s.incoming with
  | [] => (if s.staysOpen then .error .nothingYet else .ok [], s)
  | .failure e :: later => (.error e, { s with incoming := later })
  | .data d :: later => (.ok (d.take n), { s with incoming := putBack (d.drop n) later })

/-- Write all of `data`, which is no write at all if it is empty. -/
def writeAll (s : Stream) (data : Bytes) : Except StreamError Unit × Stream :=
  if data.isEmpty then (.ok (), s)
  else match s.writesBefore, s.writeFailures.dropWhile (·.kind = .interrupted) with
    | writesBefore + 1, _ => (.ok (), { s with writesBefore, written := s.written ++ [data] })
    | 0, [] => (.ok (), { s with writeFailures := [], written := s.written ++ [data] })
    | 0, e :: later => (.error e, { s with writeFailures := later })

/-- Flush what has been written. -/
def flush (s : Stream) : Except StreamError Unit × Stream :=
  match s.flushesBefore, s.flushFailures with
  | flushesBefore + 1, _ => (.ok (), { s with flushesBefore })
  | 0, [] => (.ok (), s)
  | 0, e :: later => (.error e, { s with flushFailures := later })

/-- All that has been written. -/
def output (s : Stream) : Bytes := s.written.flatten

/-- Forget what has been written. -/
def clearOutput (s : Stream) : Stream := { s with written := [] }

/-- How much is left to come, failures counted as well as bytes. -/
def remaining (s : Stream) : Nat :=
  s.incoming.foldr (fun event n => event.size + n) 0

/-- A read takes at least as much away as it gives. -/
theorem remaining_of_read {s s' : Stream} {n : Nat} {d : Bytes} (h : s.read n = (.ok d, s')) :
    s'.remaining + d.length ≤ s.remaining := by
  unfold read at h
  split at h
  · split at h <;> simp_all
  · simp at h
  · next d' later hin =>
    simp only [Prod.mk.injEq, Except.ok.injEq] at h
    obtain ⟨rfl, rfl⟩ := h
    have hd : (d'.drop n).length + (d'.take n).length = d'.length := by
      simp only [List.length_drop, List.length_take]
      omega
    simp only [remaining, hin]
    generalize d'.drop n = rest at hd
    cases rest <;> simp_all [putBack, ReadEvent.size] <;> omega

/-- A failed read says "nothing yet", or takes a failure away. -/
theorem remaining_of_read_error {s s' : Stream} {n : Nat} {e : StreamError}
    (h : s.read n = (.error e, s')) : e = .nothingYet ∧ s' = s ∨ s'.remaining < s.remaining := by
  unfold read at h
  split at h
  · split at h <;> simp_all
  · next hin =>
    simp only [Prod.mk.injEq, Except.error.injEq] at h
    obtain ⟨-, rfl⟩ := h
    simp [remaining, hin, ReadEvent.size]
  · simp at h

/-- Writing leaves what is to come. -/
theorem incoming_writeAll (s : Stream) (data : Bytes) :
    (s.writeAll data).2.incoming = s.incoming := by
  unfold writeAll
  split
  · rfl
  · split <;> rfl

/-- Flushing leaves what is to come. -/
theorem incoming_flush (s : Stream) : s.flush.2.incoming = s.incoming := by
  unfold flush
  split <;> rfl

end Stream

end MailProtocol
