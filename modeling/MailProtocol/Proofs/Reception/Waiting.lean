import MailProtocol.Proofs.Reception.Runs
import MailProtocol.Proofs.Transport.Queue

/-!
# Waiting for bytes

A receiver that says how many more bytes it needs counts exactly, whatever its grammar. It says so
again when it is asked again, and as long as fewer bytes have come than it asked for, it asks for
the rest of them and reports nothing else (`Receiver.needMore_exact`). How the bytes come does not
matter, nor how often it is asked on the way (`Receiver.Later`).

There are four places where too few bytes are found (`Reception.Wanting`). Two of them drop what is
there: bytes of a literal that is skipped are counted off, and the front of a line that is skipped
is forgotten. So the reception itself is not the same with and without a question in between, but
what it asks for is.
-/

namespace MailProtocol

variable {γ υ : Type} {G : Grammar γ υ}

namespace Reception

/-! ## Where bytes are missing -/

/-- A reception finds too few bytes: how many are missing, and what becomes of it. -/
inductive Wanting (G : Grammar γ υ) : Reception γ → Nat → Reception γ → Prop
  | literal {g : γ} {bytes buffer : Bytes} {required : Nat}
    (hshort : buffer.length < required - bytes.length) :
    Wanting G ⟨g, .gathering bytes required, buffer⟩ (required - bytes.length - buffer.length)
      ⟨g, .gathering bytes required, buffer⟩
  | line {g : γ} {bytes buffer : Bytes} {required : Nat} (hwait : required ≤ bytes.length)
    (hline : Byte.lf ∉ buffer) (hfit : buffer.length ≤ G.maxLineLength) :
    Wanting G ⟨g, .gathering bytes required, buffer⟩ 1 ⟨g, .gathering bytes required, buffer⟩
  | skippedLiteral {g : γ} {buffer : Bytes} {length : Nat} (hshort : buffer.length < length) :
    Wanting G ⟨g, .discarding (.literal length), buffer⟩ (length - buffer.length)
      ⟨g, .discarding (.literal (length - buffer.length)), []⟩
  | skippedLine {g : γ} {buffer : Bytes} (hline : Byte.lf ∉ buffer) :
    Wanting G ⟨g, .discarding .line, buffer⟩ 1 ⟨g, .discarding .line, []⟩

/-- A step finds too few bytes exactly there. -/
theorem step_eq_needMore_iff {r r' : Reception γ} {n : Nat} :
    step G r = .inr (.ok (.needMore n), r') ↔ Wanting G r n r' := by
  constructor
  · intro h
    obtain ⟨g, fragment, buffer⟩ := r
    cases fragment with
    | leftover bytes => exact absurd h parse_ne_needMore
    | gathering bytes required =>
      have hkept := eq_of_step_needMore rfl h
      subst hkept
      by_cases hwait : bytes.length < required
      · by_cases hthere : required - bytes.length ≤ buffer.length
        · rw [step_literal hwait hthere] at h
          exact absurd h parse_ne_needMore
        · have hshort : buffer.length < required - bytes.length := Nat.lt_of_not_le hthere
          rw [step_literal_short hwait hshort] at h
          obtain ⟨rfl, -⟩ := by simpa using h
          exact .literal hshort
      · have hwait : required ≤ bytes.length := Nat.le_of_not_lt hwait
        rcases hline : buffer.splitLine? with _ | ⟨line, rest⟩
        · by_cases hlong : G.maxLineLength < buffer.length
          · rw [step_line_overflow hwait hline hlong] at h
            cases h
          · have hfit : buffer.length ≤ G.maxLineLength := Nat.le_of_not_lt hlong
            rw [step_line_short hwait hline hfit] at h
            cases h
            exact .line hwait (Bytes.splitLine?_eq_none_iff.1 hline) hfit
        · by_cases hlong : G.maxLineLength < line.length
          · rw [step_line_long hwait hline hlong] at h
            simp [refuse] at h
          · rw [step_line hwait hline (Nat.le_of_not_lt hlong)] at h
            exact absurd h parse_ne_needMore
    | discarding what =>
      cases what with
      | literal length =>
        by_cases hthere : length ≤ buffer.length
        · simp [step, hthere] at h
        · have hshort : buffer.length < length := Nat.lt_of_not_le hthere
          rw [step_skip_literal_short g hshort] at h
          cases h
          exact .skippedLiteral hshort
      | line =>
        rcases hline : buffer.splitLine? with _ | ⟨line, rest⟩
        · rw [step_skip_line_short g hline] at h
          cases h
          exact .skippedLine (Bytes.splitLine?_eq_none_iff.1 hline)
        · obtain ⟨hisLine, rfl⟩ := Bytes.splitLine?_eq_some_iff.1 hline
          rw [step_skip_line g hisLine] at h
          cases h
  · intro h
    cases h with
    | literal hshort => exact step_literal_short (by omega) hshort
    | line hwait hline hfit =>
      exact step_line_short hwait (Bytes.splitLine?_eq_none_iff.2 hline) hfit
    | skippedLiteral hshort => exact step_skip_literal_short _ hshort
    | skippedLine hline => exact step_skip_line_short _ (Bytes.splitLine?_eq_none_iff.2 hline)

/-- At least one byte is missing. -/
theorem Wanting.pos {r r' : Reception γ} {n : Nat} (h : Wanting G r n r') : 0 < n := by
  cases h <;> omega

/-- With fewer bytes more than are missing, the rest of them is missing. -/
theorem Wanting.extend {r r' : Reception γ} {n : Nat} (h : Wanting G r n r') {more : Bytes}
    (hmore : more.length < n) : ∃ r'', Wanting G (r.extend more) (n - more.length) r'' := by
  cases h with
  | @literal g bytes buffer required hshort =>
    refine ⟨⟨g, .gathering bytes required, buffer ++ more⟩, ?_⟩
    have hshort' : (buffer ++ more).length < required - bytes.length := by
      rw [List.length_append]
      omega
    rw [Nat.sub_sub, ← List.length_append]
    exact .literal hshort'
  | @skippedLiteral g buffer length hshort =>
    refine ⟨⟨g, .discarding (.literal (length - buffer.length - more.length)), []⟩, ?_⟩
    have hshort' : (buffer ++ more).length < length := by
      rw [List.length_append]
      omega
    rw [Nat.sub_sub, ← List.length_append]
    exact .skippedLiteral hshort'
  | @line g bytes buffer required hwait hline hfit =>
    obtain rfl := List.length_eq_zero_iff.1 (Nat.lt_one_iff.1 hmore)
    rw [Reception.extend, List.append_nil]
    exact ⟨_, .line hwait hline hfit⟩
  | @skippedLine g buffer hline =>
    obtain rfl := List.length_eq_zero_iff.1 (Nat.lt_one_iff.1 hmore)
    rw [Reception.extend, List.append_nil]
    exact ⟨_, .skippedLine hline⟩

/-- A step that leads on does the same with more bytes there. -/
theorem step_extend_inl {r r' : Reception γ} (h : step G r = .inl r') (more : Bytes) :
    step G (r.extend more) = .inl (r'.extend more) := by
  by_cases hkept : r.fragment.isKept
  · rcases step_extend hkept more with hmore | ⟨n, hmore⟩ | ⟨m, n, s, s', hmore, -⟩
    · rw [hmore, h]
      rfl
    · rw [h] at hmore
      cases hmore
    · rw [h] at hmore
      cases hmore
  · obtain ⟨g, fragment, buffer⟩ := r
    cases fragment with
    | gathering | leftover => exact absurd rfl hkept
    | discarding what =>
      change step G ⟨g, .discarding what, buffer ++ more⟩ = _
      cases what with
      | literal length =>
        by_cases hthere : length ≤ buffer.length
        · have hdata : (buffer.take length).length = length := List.length_take_of_le hthere
          have hskip := step_skip_literal (G := G) g (buffer.take length)
          rw [hdata] at hskip
          rw [← List.take_append_drop length buffer, hskip] at h
          cases h
          rw [← List.take_append_drop length buffer, List.append_assoc, hskip,
            List.take_append_drop]
          rfl
        · rw [step_skip_literal_short g (Nat.lt_of_not_le hthere)] at h
          cases h
      | line =>
        rcases hline : buffer.splitLine? with _ | ⟨line, rest⟩
        · rw [step_skip_line_short g hline] at h
          cases h
        · obtain ⟨hisLine, rfl⟩ := Bytes.splitLine?_eq_some_iff.1 hline
          rw [step_skip_line g hisLine] at h
          cases h
          rw [List.append_assoc, step_skip_line g hisLine]
          rfl

/-! ## How many bytes are asked for -/

/-- Asked before `n` more bytes have come, the reception asks for the rest of them. -/
def Lacks (G : Grammar γ υ) (r : Reception γ) (n : Nat) : Prop :=
  ∀ more : Bytes, more.length < n → ∃ r', advance G (r.extend more)
    = (.ok (.needMore (n - more.length)), r')

/-- The bytes that a reception asks for are awaited, and still so after it has been asked. -/
theorem lacks_of_needMore {r r' : Reception γ} {n : Nat}
    (h : advance G r = (.ok (.needMore n), r')) : Lacks G r n ∧ Lacks G r' n := by
  -- where a step finds too few bytes, it finds too few with some of them there
  have hlast {a a' : Reception γ} (hwanting : Wanting G a n a') : Lacks G a n := by
    intro more hmore
    obtain ⟨r'', hmore⟩ := hwanting.extend hmore
    exact ⟨r'', advance_of_report (step_eq_needMore_iff.2 hmore)⟩
  have hagain := step_eq_needMore_iff.1 (Runs.of_needMore h).2
  refine ⟨?_, hlast hagain⟩
  -- and the steps before it are taken in the same way
  refine iterate_induction
    (P := fun a => ∀ more, advance G (r.extend more) = advance G (a.extend more))
    (Q := fun b : Report γ υ => ∀ r', b = (.ok (.needMore n), r') → Lacks G r n)
    ?_ ?_ r (fun _ => rfl) r' h
  · intro a a' heq hstep more
    rw [heq, advance_of_step (step_extend_inl hstep more)]
  · rintro a b heq hstep r' rfl more hmore
    rw [heq]
    exact hlast (step_eq_needMore_iff.1 hstep) more hmore

/-- Bytes that are awaited are asked for. -/
theorem Lacks.advance {r : Reception γ} {n : Nat} (h : Lacks G r n) (hn : 0 < n) :
    ∃ r', Reception.advance G r = (.ok (.needMore n), r') := by
  have := h [] hn
  rwa [extend, List.append_nil] at this

/-- When some of the bytes have come, the rest is awaited. -/
theorem Lacks.extend {r : Reception γ} {n : Nat} (h : Lacks G r n) (d : Bytes) :
    Lacks G (r.extend d) (n - d.length) := by
  intro more hmore
  obtain ⟨r', hadv⟩ := h (d ++ more) (by rw [List.length_append]; omega)
  rw [List.length_append, ← Nat.sub_sub] at hadv
  refine ⟨r', ?_⟩
  rw [Reception.extend, Reception.extend, List.append_assoc]
  exact hadv

end Reception

/-! ## Receiving and reading -/

/-- How many bytes one read brings. -/
def Transport.filled (t : Transport) : Nat := t.fill.1.toOption.getD 0

/-- A read puts as many bytes behind those that are there. -/
theorem Transport.exists_of_fill (t : Transport) :
    ∃ d, t.fill.2.buffer = t.buffer ++ d ∧ d.length = t.filled := by
  rcases h : t.fill with ⟨e | n, t'⟩
  · exact ⟨[], by simpa using (of_fill_error h).1, by simp [filled, h, Except.toOption]⟩
  · obtain ⟨_, d, _, -, -, rfl, rfl⟩ := exists_read_of_fill h
    exact ⟨d, rfl, by simp [filled, h, Except.toOption]⟩

namespace Receiver

/-- From `r₀` and `t₀` on the receiver has been asked and the transport been filled, in any order,
and `k` bytes have come. Between that the transport may have been used in other ways that leave its
buffer. -/
inductive Later (G : Grammar γ υ) (r₀ : Receiver γ) (t₀ : Transport) :
    Nat → Receiver γ → Transport → Prop
  | start : Later G r₀ t₀ 0 r₀ t₀
  | receive {k : Nat} {r : Receiver γ} {t : Transport} (h : Later G r₀ t₀ k r t) :
    Later G r₀ t₀ k (r.receive G t).2.1 (r.receive G t).2.2
  | fill {k : Nat} {r : Receiver γ} {t : Transport} (h : Later G r₀ t₀ k r t) :
    Later G r₀ t₀ (k + t.filled) r t.fill.2
  | aside {k : Nat} {r : Receiver γ} {t t' : Transport} (h : Later G r₀ t₀ k r t)
    (hbuffer : t'.buffer = t.buffer) : Later G r₀ t₀ k r t'

/-- Until the bytes that were awaited have come, those that have not come are awaited. -/
theorem Later.lacks {r₀ r : Receiver γ} {t₀ t : Transport} {k n : Nat}
    (h : Later G r₀ t₀ k r t) (h₀ : Reception.Lacks G (r₀.reception t₀) n) (hk : k < n) :
    Reception.Lacks G (r.reception t) (n - k) := by
  induction h with
  | start => exact h₀
  | @receive k r t _ ih =>
    obtain ⟨r', hadv⟩ := (ih hk).advance (Nat.sub_pos_of_lt hk)
    have hreceive : (r.receive G t).2.1.reception (r.receive G t).2.2
        = (Reception.advance G (r.reception t)).2 := rfl
    rw [hreceive, hadv]
    exact (Reception.lacks_of_needMore hadv).2
  | @fill k r t _ ih =>
    obtain ⟨d, hbuffer, hlen⟩ := t.exists_of_fill
    have hext : r.reception t.fill.2 = (r.reception t).extend d := by
      simp only [Receiver.reception, Reception.extend, hbuffer]
    rw [hext, ← Nat.sub_sub, ← hlen]
    exact (ih (by omega)).extend d
  | @aside k r t t' _ hbuffer ih =>
    have hsame : r.reception t' = r.reception t := by
      simp only [Receiver.reception, hbuffer]
    rw [hsame]
    exact ih hk

/-- A receiver that needs more bytes needs at least one. Asked again it needs as many, and nothing
has changed. When fewer have come, in whatever pieces and however often it was asked meanwhile, it
needs just the rest of them. -/
theorem needMore_exact (G : Grammar γ υ) {r r' : Receiver γ} {t t' : Transport} {n : Nat}
    (h : r.receive G t = (.ok (.needMore n), r', t')) :
    1 ≤ n ∧ r'.receive G t' = (.ok (.needMore n), r', t')
    ∧ ∀ {k : Nat} {r'' : Receiver γ} {t'' : Transport}, Later G r t k r'' t'' → k < n →
      (r''.receive G t'').1 = .ok (.needMore (n - k)) := by
  obtain ⟨hadv, -⟩ := advance_of_receive h
  refine ⟨?_, ?_, fun hlater hk => ?_⟩
  · exact (Reception.step_eq_needMore_iff.1 (Reception.Runs.of_needMore hadv).2).pos
  · rw [receive, Reception.advance_of_needMore hadv]
    rfl
  · obtain ⟨r₁, hmore⟩ := (hlater.lacks (Reception.lacks_of_needMore hadv).1 hk).advance
      (Nat.sub_pos_of_lt hk)
    rw [receive, hmore]

/-- A literal of ten bytes is skipped, of which three are there. Seven more are needed, and when a
read has brought two of them, five. -/
theorem needMore_exact_skipped :
    let r : Receiver Unit := ⟨(), .discarding (.literal 10)⟩
    let t : Transport := {
      stream := some (.ofPieces [Bytes.ascii "defg"])
      buffer := Bytes.ascii "abc"
      chunkSize := 2 }
    let r' : Receiver Unit := ⟨(), .discarding (.literal 7)⟩
    let t' : Transport := { t with buffer := [] }
    r.receive (Imap.Command.grammar {}) t = (.ok (.needMore 7), r', t') ∧ 0 + t'.filled < 7
    ∧ (r'.receive (Imap.Command.grammar {}) t'.fill.2).1 = .ok (.needMore 5) := by
  intro r t r' t'
  have h : r.receive (Imap.Command.grammar {}) t = (.ok (.needMore 7), r', t') := by
    have hshort : t.buffer.length < 10 := by decide
    have hadv : Reception.advance (Imap.Command.grammar {}) (r.reception t)
        = (.ok (.needMore 7), r'.reception t') :=
      Reception.advance_of_report (Reception.step_skip_literal_short () hshort)
    rw [receive, hadv]
    rfl
  have hlater : Later (Imap.Command.grammar {}) r t (0 + t'.filled) r' t'.fill.2 := by
    have hstart : Later (Imap.Command.grammar {}) r t 0 r t := .start
    have hreceived := hstart.receive
    rw [h] at hreceived
    exact hreceived.fill
  have hcount : 0 + t'.filled = 2 := by decide
  have hk : 0 + t'.filled < 7 := by omega
  have hneed := (needMore_exact _ h).2.2 hlater hk
  rw [hcount] at hneed
  exact ⟨h, hk, hneed⟩

end Receiver

end MailProtocol
