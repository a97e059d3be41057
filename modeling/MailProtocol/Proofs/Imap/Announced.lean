import MailProtocol.Proofs.Connection.Reads
import MailProtocol.Proofs.Imap.Incremental
import MailProtocol.Proofs.Imap.Marker
import MailProtocol.Proofs.Reception.Refusal
import Mathlib.Data.List.Infix

/-!
# What a refused unit announces

What is skipped after a refusal is what the last line announces that was read for the refused unit.
If that is nothing, then the next unit is the next result (`skipsByLine_reports`).

The last line is looked for in all that has been gathered. The data of a literal may run right into
it, so what looks like a marker may begin in these data and end on the line (`Straddles`). Such a
marker is heeded, and units that follow are skipped (`not_heedsLine_straddling`).
-/

namespace MailProtocol

namespace Imap

open LiteralMarker (atEnd?)

/-- What has been gathered before the line and the line itself end in a marker, and the line alone
does not. -/
def Straddles (gathered line : Bytes) : Prop :=
  atEnd? (Bytes.trimLineEnding line) = none
    ∧ ∃ u, u <:+ gathered ∧ atEnd? (Bytes.trimLineEnding (u ++ line)) ≠ none

instance (gathered line : Bytes) : Decidable (Straddles gathered line) :=
  decidable_of_iff (atEnd? (Bytes.trimLineEnding line) = none
    ∧ ∃ u ∈ gathered.tails, atEnd? (Bytes.trimLineEnding (u ++ line)) ≠ none) (by
      simp only [List.mem_tails]
      rfl)

variable {γ υ : Type} {G : Grammar γ υ} {literals : υ → List Bytes}

/-- The grammar skips what is announced by the marker at the end of a line, if anything. -/
def SkipsMarked (G : Grammar γ υ) : Prop :=
  ∀ g, ∃ length? : Nat → Bool → Option Nat, ∀ s,
    G.literalToDiscard g s = (atEnd? s).bind fun m => length? m.length m.synchronising

/-- What comes before a line has no say in what the line announces, unless a marker begins there. -/
theorem SkipsMarked.literalToDiscard_append (h : SkipsMarked G) (g : γ) {gathered line u : Bytes}
    (hline : line.IsLine) (hwhole : ¬Straddles gathered line) (hu : u <:+ gathered) :
    G.literalToDiscard g (Bytes.trimLineEnding (u ++ line))
      = G.literalToDiscard g (Bytes.trimLineEnding line) := by
  obtain ⟨length?, hlength⟩ := h g
  rw [hlength, hlength]
  cases hmarker : atEnd? (Bytes.trimLineEnding line) with
  | none =>
    have hnone : atEnd? (Bytes.trimLineEnding (u ++ line)) = none := by
      by_contra hsome
      exact hwhole ⟨hmarker, u, hu, hsome⟩
    rw [hnone]
  | some m =>
    have hne : Bytes.trimLineEnding line ≠ [] := by
      intro hnil
      rw [hnil] at hmarker
      cases hmarker
    obtain ⟨binary, hjoined⟩ := LiteralMarker.atEnd?_append hmarker u
    rw [Bytes.trimLineEnding_append hline hne, hjoined]
    rfl

/-- What is skipped after a refusal is what the last line announces. -/
theorem SkipsMarked.recovery_append (h : SkipsMarked G) (g : γ) {gathered line : Bytes}
    (hline : line.IsLine) (hwhole : ¬Straddles gathered line) :
    Reception.recovery G g (gathered ++ line)
      = (G.literalToDiscard g (Bytes.trimLineEnding line)).elim .empty
        fun n => .discarding (.literal n) := by
  obtain ⟨u, hu, hlast⟩ := Bytes.lastLine?_append_line hline gathered
  rw [Reception.recovery_of_lastLine? hlast, h.literalToDiscard_append g hline hwhole hu]

/-- What a receiver makes of the input once it has refused what it had gathered with one more line.
It skips what that line announces. If that is nothing, then a unit that comes next with lines that
fit is its next result. Bytes that are still to come are in `coming`, and what it goes on to report
is `after`. -/
structure HeedsLine (G : Grammar γ υ) (literals : υ → List Bytes) (line : Bytes) (r : Reception γ)
    (coming : List Bytes) (after : List (Reported υ)) : Prop where
  skipped : r.fragment = (G.literalToDiscard r.state line.trimLineEnding).elim .empty
    fun n => .discarding (.literal n)
  next : G.literalToDiscard r.state line.trimLineEnding = none → ∀ {c rest : Bytes} {unit : υ},
    r.buffer ++ coming.flatten = c ++ rest →
    (G.parse r.state (c ++ rest)).2 = .ok (.complete unit rest) →
    (∀ l ∈ Bytes.physicalLines (literals unit) c, l.length ≤ G.maxLineLength) →
    (Reported.results after).head? = some (.ok unit)

/-- Wherever a receiver that begins afresh refuses something, if not for the length of a line, its
grammar has been asked about what was gathered with one more line. Only that line says what is
skipped, unless a marker straddles its beginning. -/
def SkipsByLine (G : Grammar γ υ) (hG : G.Lawful) (literals : υ → List Bytes) (g : γ) : Prop :=
  ∀ (chunk : Nat) (pieces : List Bytes) {before after : List (Reported υ)} {m : Malformed},
    Receiver.reports hG g chunk pieces = before ++ .error m :: after → m.fault ≠ .lineTooLong →
    ∃ past coming r r' gathered line, Bytes.readBy chunk pieces = past ++ coming
      ∧ Reception.Runs G { state := g, buffer := [] } past before r
      ∧ Reception.Refusal G r m r' gathered line
      ∧ (¬Straddles gathered line → HeedsLine G literals line r' coming after)

theorem SkipsMarked.skipsByLine (h : SkipsMarked G) (hG : G.Lawful)
    (hinc : G.Incremental literals) (g : γ) : SkipsByLine G hG literals g := by
  intro chunk pieces before after m hreports hm
  rw [Receiver.reports_eq_feed] at hreports
  generalize Bytes.readBy chunk pieces = reads at hreports ⊢
  obtain ⟨_, _, hfed, _⟩ :=
    Reception.exists_runs_feed hG { state := g, buffer := [] } reads
  obtain ⟨past, coming, r, r', rfl, hruns, hstep, ho⟩ := hfed.exists_step hreports
  obtain ⟨gathered, line, hrefusal⟩ :=
    Reception.exists_refusal hinc (hruns.standing hG hinc) hstep hm
  refine ⟨past, coming, r, r', gathered, line, rfl, hruns, hrefusal, fun hwhole => ?_⟩
  have hskipped := hrefusal.recovery.trans (h.recovery_append _ hrefusal.isLine hwhole)
  refine ⟨hskipped, fun hnone c rest unit hahead hparse hfit => ?_⟩
  rw [hnone] at hskipped
  obtain ⟨g', fragment, buffer⟩ := r'
  obtain rfl : fragment = .empty := hskipped
  -- from the refusal on, the unit leads the input
  have hafter : after = Reception.feed hG ⟨g', .empty, buffer⟩ coming := by
    have hall := hruns.reaches hG coming
    rw [hreports, Reception.feed_of_report hG (Reception.advance_of_report hstep) ho] at hall
    exact (List.cons.inj (List.append_cancel_left hall)).2
  obtain ⟨g'', os, hleads, hresults⟩ := Reception.exists_leads_of_gathers hG
    (hinc.gathers hparse) hfit (Nat.le_refl 0) g' coming rest
  obtain ⟨there, coming', -, -, hfeed⟩ := hleads buffer coming List.suffix_rfl hahead
  rw [hafter]
  show (Reported.results (Reception.feed hG ⟨g', .gathering [] 0, buffer⟩ coming)).head? = _
  rw [hfeed, Reported.results_append, hresults]
  rfl

/-! ## Commands and responses -/

theorem Command.skipsMarked (config : Config) : SkipsMarked (grammar config) :=
  fun _ => ⟨fun length synchronising => if synchronising then none else some length, fun _ => rfl⟩

theorem Response.skipsMarked (config : Config) : SkipsMarked (grammar config) := by
  rintro (_ | _)
  · exact ⟨fun _ _ => none, fun s => (Option.bind_fun_none (atEnd? s)).symm⟩
  · exact ⟨fun length _ => some length, fun _ => Option.map_eq_bind⟩

/-- However its bytes arrive, only the last line of a refused command or response says what is
skipped after it, and if that is nothing then the next unit is not missed. No marker must begin in
the data of a literal and end on that line. -/
theorem skipsByLine_reports (config : Config) :
    SkipsByLine (Command.grammar config) (Command.lawful_grammar config) Command.literals ()
      ∧ ∀ inData, SkipsByLine (Response.grammar config) (Response.lawful_grammar config)
        Response.literals inData :=
  ⟨(Command.skipsMarked config).skipsByLine _ (Command.incremental_grammar config) (),
    (Response.skipsMarked config).skipsByLine _ (Response.incremental_grammar config)⟩

/-- The data of a literal look like a line that announces another one, and the line that is refused
behind them announces nothing. -/
theorem skipsByLine_reports_lookalike :
    let hG := Command.lawful_grammar {}
    let pieces := [Bytes.ascii "a X \x7b6+\x7d\r\n\x7b5", Bytes.ascii "+\x7d\r\n )\r\nb N",
      Bytes.ascii "OOP\r\n"]
    let b : Command := { tag := Bytes.ascii "b", verb := Bytes.ascii "NOOP" }
    ∃ before m after, Receiver.reports hG () 4096 pieces = before ++ .error m :: after
      ∧ m.fault ≠ .lineTooLong
      ∧ ∃ past coming r r' gathered line, Bytes.readBy 4096 pieces = past ++ coming
        ∧ Reception.Runs (Command.grammar {}) { state := (), buffer := [] } past before r
        ∧ Reception.Refusal (Command.grammar {}) r m r' gathered line
        ∧ ¬Straddles gathered line
        ∧ HeedsLine (Command.grammar {}) Command.literals line r' coming after
        ∧ (Reported.results after).head? = some (.ok b) := by
  intro hG pieces b
  have hne : [] ∉ pieces := by decide
  have hreads : Bytes.readBy 4096 pieces = pieces :=
    ReadEvent.pieces_reads_map_data hne (by decide)
  let raw := Bytes.ascii "a X \x7b6+\x7d\r\n\x7b5+\x7d\r\n )\r\n"
  let m : Malformed := { fault := .unopenedParenthesis, tag := some (Bytes.ascii "a"), raw }
  have hannounced : Reception.step (Command.grammar {})
      { state := (), buffer := Bytes.ascii "a X \x7b6+\x7d\r\n\x7b5" }
      = .inr (.ok (.continuing 6 false),
        ⟨(), .gathering (Bytes.ascii "a X \x7b6+\x7d\r\n") 16, Bytes.ascii "\x7b5"⟩) := by
    decide +kernel
  have hshort : Reception.step (Command.grammar {})
      ⟨(), .gathering (Bytes.ascii "a X \x7b6+\x7d\r\n") 16, Bytes.ascii "\x7b5"⟩
      = .inr (.ok (.needMore 4),
        ⟨(), .gathering (Bytes.ascii "a X \x7b6+\x7d\r\n") 16, Bytes.ascii "\x7b5"⟩) := by
    decide +kernel
  have hliteral : Reception.step (Command.grammar {})
      ⟨(), .gathering (Bytes.ascii "a X \x7b6+\x7d\r\n") 16,
        Bytes.ascii "\x7b5+\x7d\r\n )\r\nb N"⟩
      = .inl ⟨(), .gathering (Bytes.ascii "a X \x7b6+\x7d\r\n\x7b5+\x7d\r\n") 16,
        Bytes.ascii " )\r\nb N"⟩ := by
    decide +kernel
  have hrefused : Reception.step (Command.grammar {})
      ⟨(), .gathering (Bytes.ascii "a X \x7b6+\x7d\r\n\x7b5+\x7d\r\n") 16,
        Bytes.ascii " )\r\nb N"⟩
      = .inr (.error m, ⟨(), .empty, Bytes.ascii "b N"⟩) := by
    decide +kernel
  have hunit : Reception.step (Command.grammar {}) ⟨(), .empty, Bytes.ascii "b NOOP\r\n"⟩
      = .inr (.ok (.complete b), ⟨(), .empty, []⟩) := by
    decide +kernel
  have hruns : Reception.Runs (Command.grammar {}) { state := (), buffer := [] } pieces
      [.ok (.continuing 6 false), .error m, .ok (.complete b)] ⟨(), .empty, []⟩ :=
    (((((((Reception.Runs.of_first _ () _).report hannounced (by simp)).read hshort _).step
      hliteral).report hrefused (by simp)).read
        (Reception.step_line_short (Nat.le_refl 0) (by decide) (by decide)) _).report hunit
        (by simp))
  have hreports : Receiver.reports hG () 4096 pieces
      = [.ok (.continuing 6 false)] ++ .error m :: [.ok (.complete b)] := by
    rw [Receiver.reports_eq_feed, hreads]
    exact hruns.feed_eq hG
  obtain ⟨past, coming, r, r', gathered, line, hcut, hpast, hrefusal, hheeds⟩ :=
    (skipsByLine_reports {}).1 4096 pieces hreports (by decide)
  -- whatever part of the bytes is the last line, no marker straddles its beginning
  have hwhole : ¬Straddles gathered line := by
    obtain ⟨report, -, hm⟩ := hrefusal.parse
    have hraw : raw = gathered ++ line := congrArg Malformed.raw hm
    have hall : ∀ l ∈ raw.tails, Bytes.IsLine l →
        ¬Straddles (raw.take (raw.length - l.length)) l := by
      decide +kernel
    have hmem : line ∈ raw.tails := (List.mem_tails _ _).2 ⟨gathered, hraw.symm⟩
    have hstart : raw.take (raw.length - line.length) = gathered := by
      rw [hraw, List.length_append, Nat.add_sub_cancel, List.take_left]
    exact hstart ▸ hall line hmem hrefusal.isLine
  exact ⟨_, m, _, hreports, by decide, past, coming, r, r', gathered, line, hcut, hpast, hrefusal,
    hwhole, hheeds hwhole, rfl⟩

/-- What stands in the data of a literal and the end of a line make up a marker. -/
theorem not_heedsLine_straddling :
    let hG := Command.lawful_grammar {}
    let pieces := [Bytes.ascii "a X (\x7b3+\x7d\r\n\x7b5+\x7d\r\nb NOOP\r\nc NOOP\r\n"]
    let gathered := Bytes.ascii "a X (\x7b3+\x7d\r\n\x7b5+"
    let line := Bytes.ascii "\x7d\r\n"
    let b : Command := { tag := Bytes.ascii "b", verb := Bytes.ascii "NOOP" }
    let c : Command := { tag := Bytes.ascii "c", verb := Bytes.ascii "NOOP" }
    ∃ m r r' after,
      Receiver.reports hG () 4096 pieces = .ok (.continuing 3 false) :: .error m :: after
        ∧ Reception.Refusal (Command.grammar {}) r m r' gathered line
        ∧ (Command.grammar {}).literalToDiscard () line.trimLineEnding = none
        ∧ ((Command.grammar {}).parse () r'.buffer).2 = .ok (.complete b (Bytes.ascii "c NOOP\r\n"))
        ∧ Reported.results after = [.ok c]
        ∧ ¬HeedsLine (Command.grammar {}) Command.literals line r' [] after := by
  intro hG pieces gathered line b c
  have hne : [] ∉ pieces := by decide
  have hreads : Bytes.readBy 4096 pieces = pieces :=
    ReadEvent.pieces_reads_map_data hne (by decide)
  let m : Malformed := {
    fault := .unclosedParenthesis, tag := some (Bytes.ascii "a"), raw := gathered ++ line }
  let r : Reception Unit :=
    ⟨(), .gathering gathered 14, line ++ Bytes.ascii "b NOOP\r\nc NOOP\r\n"⟩
  let r' : Reception Unit :=
    ⟨(), .discarding (.literal 5), Bytes.ascii "b NOOP\r\nc NOOP\r\n"⟩
  have hstep : Reception.step (Command.grammar {}) r = .inr (.error m, r') := by decide +kernel
  let announced : Reception Unit := ⟨(), .gathering (Bytes.ascii "a X (\x7b3+\x7d\r\n") 14,
    Bytes.ascii "\x7b5+\x7d\r\nb NOOP\r\nc NOOP\r\n"⟩
  have hannounced : Reception.step (Command.grammar {}) { state := (), buffer := pieces.flatten }
      = .inr (.ok (.continuing 3 false), announced) := by decide +kernel
  have hliteral : Reception.step (Command.grammar {}) announced = .inl r := by decide +kernel
  have hruns : Reception.Runs (Command.grammar {}) { state := (), buffer := [] } pieces
      [.ok (.continuing 3 false)] r :=
    ((Reception.Runs.of_first _ () _).report hannounced (by simp)).step hliteral
  -- a command is skipped as the data of the literal that seems to be announced
  have hdata : Reception.step (Command.grammar {}) r'
      = .inl ⟨(), .discarding .line, Bytes.ascii "P\r\nc NOOP\r\n"⟩ := by decide +kernel
  have hline : Reception.step (Command.grammar {})
      ⟨(), .discarding .line, Bytes.ascii "P\r\nc NOOP\r\n"⟩
      = .inl ⟨(), .empty, Bytes.ascii "c NOOP\r\n"⟩ := by decide +kernel
  have hnext : Reception.step (Command.grammar {}) ⟨(), .empty, Bytes.ascii "c NOOP\r\n"⟩
      = .inr (.ok (.complete c), ⟨(), .empty, []⟩) := by decide +kernel
  have hskipped : Reception.Runs (Command.grammar {}) r' [] [.ok (.complete c)]
      ⟨(), .empty, []⟩ :=
    ((Reception.Runs.start.step hdata).step hline).report hnext (by simp)
  refine ⟨m, r, r', [.ok (.complete c)], ?_, ?_, by decide +kernel, by decide +kernel, rfl, ?_⟩
  · rw [Receiver.reports_eq_feed, hreads]
    exact ((hruns.report hstep (by simp)).trans hskipped).feed_eq hG
  · refine ⟨⟨14, by decide +kernel, rfl⟩, by decide +kernel, rfl, ?_, by decide +kernel⟩
    exact ⟨{ fault := .unclosedParenthesis, tag := some (Bytes.ascii "a") }, by decide +kernel, rfl⟩
  · intro hheeds
    have hfragment := hheeds.skipped
    revert hfragment
    decide +kernel

end Imap

end MailProtocol
