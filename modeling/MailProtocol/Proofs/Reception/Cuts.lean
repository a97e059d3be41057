import MailProtocol.Proofs.Reception.Pump
import MailProtocol.Proofs.Reception.Steps
import MailProtocol.Imap.Command
import Mathlib.Data.List.Forall2

/-!
# However the bytes arrive

The reports of a receiver do not depend on how its input was cut on the way, for any lawful grammar
and any sizes of pieces and reads, up to the first refusal (`alike_pump_of_flatten_eq`). Of a line
that is too long two receivers may show different bytes, because one may have dropped the line
before its end had come.

The reason is that a report, once there is one, does not change when more bytes follow
(`advance_extend_ok`, `advance_extend_error`), and where more bytes are needed they count as if they
had been there (`advance_extend_needMore`). So reading in pieces gives what reading all at once
gives (`alike_pump_trace`).
-/

namespace MailProtocol

variable {γ υ : Type} {G : Grammar γ υ}

namespace Delivery

/-- The same report with the same bytes ahead, or refusals that are alike. -/
inductive Alike : Delivery υ → Delivery υ → Prop
  | ok (outcome : Outcome υ) (ahead : Bytes) : Alike (.ok outcome, ahead) (.ok outcome, ahead)
  | error {m n : Malformed} (h : m.Alike n) (ahead ahead' : Bytes) :
    Alike (.error m, ahead) (.error n, ahead')

theorem Alike.symm {d e : Delivery υ} (h : Alike d e) : Alike e d := by
  cases h with
  | ok outcome ahead => exact .ok outcome ahead
  | error h ahead ahead' => exact .error h.symm ahead' ahead

theorem Alike.trans {d e f : Delivery υ} (h : Alike d e) (h' : Alike e f) : Alike d f := by
  cases h with
  | ok outcome ahead => exact h'
  | error h ahead ahead' =>
    cases h' with
    | error h' _ ahead'' => exact .error (h.trans h') ahead ahead''

/-- The same reports, or refusals that are alike, one by one. -/
abbrev AllAlike (ds es : List (Delivery υ)) : Prop := List.Forall₂ Alike ds es

theorem AllAlike.symm {ds es : List (Delivery υ)} (h : AllAlike ds es) : AllAlike es ds :=
  (h.imp fun _ _ => Alike.symm).flip

theorem AllAlike.trans {ds es fs : List (Delivery υ)} (h : AllAlike ds es) (h' : AllAlike es fs) :
    AllAlike ds fs := by
  induction h generalizing fs with
  | nil => exact h'
  | cons hd _ ih =>
    obtain _ | ⟨hd', htl'⟩ := h'
    exact .cons (hd.trans hd') (ih htl')

/-- The reports up to the first refusal, which is the last of them. -/
def untilRefusal : List (Delivery υ) → List (Delivery υ)
  | [] => []
  | (.ok outcome, ahead) :: rest => (.ok outcome, ahead) :: untilRefusal rest
  | (.error report, ahead) :: _ => [(.error report, ahead)]

end Delivery

/-! ## Reports stand -/

namespace Reception

/-- Taking steps goes on after the first one. -/
theorem advance_of_step {r r' : Reception γ} (h : step G r = .inl r') :
    advance G r = advance G r' := by
  rw [advance, iterate_eq, h]
  rfl

theorem advance_of_report {r : Reception γ} {b : Report γ υ} (h : step G r = .inr b) :
    advance G r = b := by
  rw [advance, iterate_eq, h]

/-- The report comes from a last step, and with more bytes there the steps before it are the
same. -/
theorem exists_last_step {r : Reception γ} (hr : r.fragment.isKept) :
    ∃ a, a.fragment.isKept ∧ step G a = .inr (advance G r)
      ∧ ∀ more, advance G (r.extend more) = advance G (a.extend more) := by
  -- every reception on the way is kept, and leads to the same report whatever is added to it
  refine iterate_induction
    (P := fun a => a.fragment.isKept
      ∧ ∀ more, advance G (r.extend more) = advance G (a.extend more))
    (Q := fun b : Report γ υ => ∃ a, a.fragment.isKept ∧ step G a = .inr b
      ∧ ∀ more, advance G (r.extend more) = advance G (a.extend more)) ?_ ?_ r ⟨hr, fun _ => rfl⟩
  · rintro a a' ⟨ha, heq⟩ hstep
    refine ⟨(isKept_of_step ha).1 a' hstep, fun more => ?_⟩
    rcases step_extend ha more with h | ⟨n, h⟩ | ⟨m, n, r', r'', h, -⟩
    · rw [hstep] at h
      rw [heq, advance_of_step h]
    · rw [hstep] at h
      cases h
    · rw [hstep] at h
      cases h
  · rintro a b ⟨ha, heq⟩ hstep
    exact ⟨a, ha, hstep, heq⟩

/-- As long as nothing is refused, nothing is skipped. -/
theorem isKept_of_advance {r r' : Reception γ} {o : Outcome υ} (hr : r.fragment.isKept)
    (h : advance G r = (.ok o, r')) : r'.fragment.isKept := by
  obtain ⟨a, ha, hstep, -⟩ := exists_last_step (G := G) hr
  rw [h] at hstep
  exact (isKept_of_step ha).2 o r' hstep

/-- Where more bytes are needed, they are used as if they had been there. -/
theorem advance_extend_needMore {r r' : Reception γ} {n : Nat} (hr : r.fragment.isKept)
    (h : advance G r = (.ok (.needMore n), r')) (more : Bytes) :
    advance G (r.extend more) = advance G (r'.extend more) := by
  obtain ⟨a, ha, hstep, heq⟩ := exists_last_step (G := G) hr
  rw [h] at hstep
  rw [heq more, eq_of_step_needMore ha hstep]

/-- A unit or an announcement is reported in the same way with more bytes there. -/
theorem advance_extend_ok {r r' : Reception γ} {o : Outcome υ} (hr : r.fragment.isKept)
    (h : advance G r = (.ok o, r')) (ho : ∀ n, o ≠ .needMore n) (more : Bytes) :
    advance G (r.extend more) = (.ok o, r'.extend more) := by
  obtain ⟨a, ha, hstep, heq⟩ := exists_last_step (G := G) hr
  rw [h] at hstep
  rw [heq more]
  rcases step_extend ha more with hmore | ⟨n, hmore⟩ | ⟨m, n, r', r'', hmore, -⟩
  · rw [hstep] at hmore
    exact advance_of_report hmore
  · rw [hstep] at hmore
    cases hmore
    exact absurd rfl (ho n)
  · rw [hstep] at hmore
    cases hmore

/-- A refusal is reported with more bytes there, too. -/
theorem advance_extend_error {r r' : Reception γ} {m : Malformed} (hr : r.fragment.isKept)
    (h : advance G r = (.error m, r')) (more : Bytes) :
    ∃ n r'', advance G (r.extend more) = (.error n, r'') ∧ m.Alike n := by
  obtain ⟨a, ha, hstep, heq⟩ := exists_last_step (G := G) hr
  rw [h] at hstep
  rw [heq more]
  rcases step_extend ha more with hmore | ⟨n, hmore⟩ | ⟨m', n, r', r'', hmore, hlong, halike⟩
  · rw [hstep] at hmore
    exact ⟨m, r'.extend more, advance_of_report hmore, .refl m⟩
  · rw [hstep] at hmore
    cases hmore
  · rw [hstep] at hmore
    cases hmore
    exact ⟨n, r'', advance_of_report hlong, halike⟩

/-! ## Traces -/

theorem trace_of_needMore (hG : G.Lawful) {r r' : Reception γ} {n : Nat}
    (h : advance G r = (.ok (.needMore n), r')) : trace hG r = [] := by
  rw [trace_eq, h]

theorem trace_of_error (hG : G.Lawful) {r r' : Reception γ} {m : Malformed}
    (h : advance G r = (.error m, r')) :
    trace hG r = (.error m, r'.buffer) :: trace hG r' := by
  rw [trace_eq, h]

theorem trace_of_complete (hG : G.Lawful) {r r' : Reception γ} {unit : υ}
    (h : advance G r = (.ok (.complete unit), r')) :
    trace hG r = (.ok (.complete unit), r'.buffer) :: trace hG r' := by
  rw [trace_eq, h]

theorem trace_of_continuing (hG : G.Lawful) {r r' : Reception γ} {missing : Nat} {goAhead : Bool}
    (h : advance G r = (.ok (.continuing missing goAhead), r')) :
    trace hG r = (.ok (.continuing missing goAhead), r'.buffer) :: trace hG r' := by
  rw [trace_eq, h]

/-- What is reported next decides the whole trace. -/
theorem trace_congr (hG : G.Lawful) {r s : Reception γ} (h : advance G r = advance G s) :
    trace hG r = trace hG s := by
  rw [trace_eq, trace_eq, h]

end Reception

/-! ## Streams of pieces -/

/-- A stream that gives these pieces, one after the other, and then ends. A piece that is longer
than what is asked for takes several reads. -/
def Stream.ofPieces (pieces : List Bytes) : Stream := { incoming := pieces.map .data }

namespace Transport

/-- What is left to come are these pieces, none of them empty. -/
def Gives (t : Transport) (pieces : List Bytes) : Prop :=
  [] ∉ pieces ∧ ∃ s, t.stream = some s ∧ s.incoming = pieces.map .data

theorem gives_ofPieces {pieces : List Bytes} (h : [] ∉ pieces) (chunk : Nat) :
    (ofStream (.ofPieces pieces) chunk).Gives pieces := ⟨h, _, rfl, rfl⟩

theorem Gives.ahead_eq {t : Transport} {pieces : List Bytes} (h : t.Gives pieces) :
    t.ahead = t.buffer ++ pieces.flatten := by
  obtain ⟨-, s, hs, hincoming⟩ := h
  rw [ahead, hs, Option.map_some, Option.getD_some, Stream.unread, hincoming]
  rw [List.flatMap_map]
  simp

/-- Once all pieces have come, reading brings nothing. -/
theorem Gives.fill_nil {t t' : Transport} {n : Nat} (h : t.Gives []) :
    t.fill ≠ (.ok (n + 1), t') := by
  obtain ⟨-, s, hs, hincoming⟩ := h
  have hread : s.read (max t.chunkSize 1)
      = (if s.staysOpen then .error .nothingYet else .ok [], s) := by
    rw [Stream.read, hincoming]
    rfl
  rw [fill, hs]
  simp only [hread]
  cases s.staysOpen <;> simp

/-- Reading brings the front of the next piece, and at least one byte of it. -/
theorem Gives.fill_cons {t : Transport} {piece : Bytes} {pieces : List Bytes}
    (h : t.Gives (piece :: pieces)) :
    ∃ d n t' pieces', t.fill = (.ok (n + 1), t') ∧ t'.Gives pieces'
      ∧ t'.buffer = t.buffer ++ d ∧ (piece :: pieces).flatten = d ++ pieces'.flatten := by
  obtain ⟨hne, s, hs, hincoming⟩ := h
  rw [List.mem_cons, not_or] at hne
  set k := max t.chunkSize 1 with hk
  have hread : s.read k = (.ok (piece.take k),
      { s with incoming := Stream.putBack (piece.drop k) (pieces.map .data) }) := by
    rw [Stream.read, hincoming]
    rfl
  have hlen : (piece.take k).length = (piece.take k).length - 1 + 1 := by
    have := List.length_pos_iff.2 (Ne.symm hne.1)
    rw [List.length_take]
    omega
  refine ⟨piece.take k, (piece.take k).length - 1, { t with
    stream := some { s with incoming := Stream.putBack (piece.drop k) (pieces.map .data) }
    buffer := t.buffer ++ piece.take k },
    if piece.drop k = [] then pieces else piece.drop k :: pieces, ?_, ⟨?_, _, rfl, ?_⟩, rfl, ?_⟩
  · rw [fill, hs, ← hlen]
    simp only [← hk, hread]
  · split
    · exact hne.2
    · next hrest =>
      rw [List.mem_cons, not_or]
      exact ⟨Ne.symm hrest, hne.2⟩
  · by_cases hrest : piece.drop k = []
    · rw [if_pos hrest, hrest]
      rfl
    · rw [if_neg hrest]
      obtain ⟨b, rest, heq⟩ := List.exists_cons_of_ne_nil hrest
      rw [heq]
      rfl
  · by_cases hrest : piece.drop k = []
    · have htake : piece.take k = piece := List.take_of_length_le (List.drop_eq_nil_iff.1 hrest)
      rw [if_pos hrest, htake, List.flatten_cons]
    · rw [if_neg hrest, List.flatten_cons, List.flatten_cons, ← List.append_assoc,
        List.take_append_drop]

end Transport

/-! ## Reading in pieces -/

theorem Transport.Gives.of_stream_eq {t t' : Transport} {pieces : List Bytes} (h : t.Gives pieces)
    (heq : t'.stream = t.stream) : t'.Gives pieces := ⟨h.1, heq ▸ h.2⟩

/-- Reading in pieces gives the reports that reading all at once gives, up to the first refusal. -/
theorem alike_pump_trace (hG : G.Lawful) (r : Receiver γ) (t : Transport) {pieces : List Bytes}
    (hr : r.fragment.isKept) (ht : t.Gives pieces) :
    Delivery.AllAlike (Delivery.untilRefusal (r.pump hG t))
      (Delivery.untilRefusal (Reception.trace hG ((r.reception t).extend pieces.flatten))) := by
  fun_induction Receiver.pump hG r t generalizing pieces with
  | case1 r t count r' t' hrec n t'' hfill ih =>
    obtain ⟨hadv, hstream⟩ := Receiver.advance_of_receive hrec
    have ht' := ht.of_stream_eq hstream
    have hr' : r'.fragment.isKept := Reception.isKept_of_advance (r := r.reception t) hr hadv
    -- the pieces cannot have run out, since reading brought something
    obtain _ | ⟨piece, pieces⟩ := pieces
    · exact absurd hfill ht'.fill_nil
    · -- what has been read counts as if it had been there from the beginning
      obtain ⟨d, n', t''', pieces', hfill', ht'', hbuffer, hflatten⟩ := ht'.fill_cons
      rw [hfill] at hfill'
      obtain ⟨-, rfl⟩ := Prod.mk.inj hfill'
      have hext : (r'.reception t').extend (piece :: pieces).flatten
          = (r'.reception t'').extend pieces'.flatten := by
        simp only [Reception.extend, Receiver.reception, hbuffer, hflatten, List.append_assoc]
      have hneed := Reception.advance_extend_needMore (r := r.reception t) hr hadv
        (piece :: pieces).flatten
      rw [Reception.trace_congr hG hneed, hext]
      exact ih hr' ht''
  | case2 r t count r' t' hrec hfill =>
    obtain ⟨hadv, hstream⟩ := Receiver.advance_of_receive hrec
    obtain _ | ⟨piece, pieces⟩ := pieces
    · have hnone : (r.reception t).extend [].flatten = r.reception t := by
        simp [Reception.extend]
      rw [hnone, Reception.trace_of_needMore hG hadv]
      exact List.Forall₂.nil
    · obtain ⟨d, n, t'', pieces', hfill', -⟩ := (ht.of_stream_eq hstream).fill_cons
      exact absurd hfill' (hfill n t'')
  | case3 r t unit r' t' hrec ih =>
    obtain ⟨hadv, hstream⟩ := Receiver.advance_of_receive hrec
    have ht' := ht.of_stream_eq hstream
    have hr' : r'.fragment.isKept := Reception.isKept_of_advance (r := r.reception t) hr hadv
    have hmore := Reception.advance_extend_ok (r := r.reception t) hr hadv (by simp) pieces.flatten
    rw [Reception.trace_of_complete hG hmore, ht'.ahead_eq]
    exact List.Forall₂.cons (.ok _ _) (ih hr' ht')
  | case4 r t missing goAhead r' t' hrec ih =>
    obtain ⟨hadv, hstream⟩ := Receiver.advance_of_receive hrec
    have ht' := ht.of_stream_eq hstream
    have hr' : r'.fragment.isKept := Reception.isKept_of_advance (r := r.reception t) hr hadv
    have hmore := Reception.advance_extend_ok (r := r.reception t) hr hadv (by simp) pieces.flatten
    rw [Reception.trace_of_continuing hG hmore, ht'.ahead_eq]
    exact List.Forall₂.cons (.ok _ _) (ih hr' ht')
  | case5 r t report r' t' hrec ih =>
    obtain ⟨hadv, -⟩ := Receiver.advance_of_receive hrec
    obtain ⟨n, r'', hmore, halike⟩ :=
      Reception.advance_extend_error (r := r.reception t) hr hadv pieces.flatten
    -- nothing after the first refusal counts
    rw [Reception.trace_of_error hG hmore]
    exact List.Forall₂.cons (.error halike _ _) .nil

/-- Two receivers of one grammar that begin afresh report the same units and the same announcements
of literals from the same bytes, up to the first refusal and with it, whatever pieces the bytes come
in and however much is read at a time. -/
theorem alike_pump_of_flatten_eq (hG : G.Lawful) (g : γ) {pieces pieces' : List Bytes}
    (hne : [] ∉ pieces) (hne' : [] ∉ pieces') (h : pieces.flatten = pieces'.flatten)
    (chunk chunk' : Nat) :
    Delivery.AllAlike
      (Delivery.untilRefusal
        (Receiver.pump hG { state := g } (.ofStream (.ofPieces pieces) chunk)))
      (Delivery.untilRefusal
        (Receiver.pump hG { state := g } (.ofStream (.ofPieces pieces') chunk'))) := by
  have hfirst := alike_pump_trace hG { state := g } _ rfl (Transport.gives_ofPieces hne chunk)
  have hsecond := alike_pump_trace hG { state := g } _ rfl (Transport.gives_ofPieces hne' chunk')
  rw [← h] at hsecond
  exact hfirst.trans hsecond.symm

/-- A command cut inside of a literal's announcement, inside of a line end and inside of the literal
is received byte by byte as it is when it comes at once, together with the next one. -/
theorem alike_pump_login :
    let pieces := [Bytes.ascii "A LOGIN \x7b3", Bytes.ascii "\x7d\r", Bytes.ascii "\nj",
      Bytes.ascii "\no pass\r\nB NOOP\r\n"]
    [] ∉ pieces ∧ [] ∉ [pieces.flatten] ∧ Delivery.AllAlike
      (Delivery.untilRefusal (Receiver.pump (Imap.Command.lawful_grammar {}) { state := () }
        (.ofStream (.ofPieces pieces) 1)))
      (Delivery.untilRefusal (Receiver.pump (Imap.Command.lawful_grammar {}) { state := () }
        (.ofStream (.ofPieces [pieces.flatten]) 8192))) := by
  intro pieces
  have hne : [] ∉ pieces := by decide
  have hne' : [] ∉ [pieces.flatten] := by decide
  exact ⟨hne, hne', alike_pump_of_flatten_eq (Imap.Command.lawful_grammar {}) () hne hne'
    (by rw [List.flatten_singleton]) 1 8192⟩

end MailProtocol
