import MailProtocol.Proofs.Connection.Reads
import MailProtocol.Proofs.Imap.Skipping

/-!
# Recovery from rejected commands

A client that does not wait sends all of a command, even if the server has refused a literal of it.
The server skips the literal it has refused, and further literals that the rest of the command
announces, because otherwise their bytes would be read as commands (`answers_reports`).

An announcement is looked for at the end of a line that is being skipped. The beginning of such a
line may have been dropped before its end came, so an announcement is missed if a read begins inside
of it (`not_answers_reports_cut`). Elsewhere reads may begin anywhere.
-/

namespace MailProtocol

namespace Imap

namespace Outline

/-- No piece begins inside of a marker of the outline, from its opening brace to its line end. -/
def Uncut (pieces : List Bytes) (rest : Bytes) : Outline → Prop
  | text _ => True
  | literal _ data _ more =>
    Bytes.Uncut pieces (LiteralMarker.plain data.length ++ Bytes.crlf)
        (data ++ ((more.segments .nonSynchronising).concat ++ rest))
      ∧ more.Uncut pieces rest

theorem Uncut.uncutBy {pieces : List Bytes} {rest : Bytes} {o : Outline} (h : o.Uncut pieces rest) :
    o.UncutBy .nonSynchronising pieces rest := by
  induction o with
  | text s => trivial
  | literal before data binary more ih => exact ⟨h.1, ih h.2⟩

end Outline

/-- A server skips what is announced by a client that does not wait. -/
theorem Command.heeds (config : Config) : Heeds (grammar config) () .nonSynchronising where
  some {s n binary} h := by
    show (do
      let marker ← LiteralMarker.atEnd? s
      if marker.synchronising then none else some marker.length) = _
    rw [h]
    rfl
  none {s} h := by
    show (do
      let marker ← LiteralMarker.atEnd? s
      if marker.synchronising then none else some marker.length) = _
    rw [h]
    rfl

/-! ## What is reported of a command -/

namespace Outline

/-- What a server that accepts literals up to `maxLiteral` reports of the rest of the command `unit`
with this outline, when it has gathered the bytes `p`. -/
def reports (maxLiteral : Nat) (mode : LiteralMode) (unit : Command) (p : Bytes) :
    Outline → List (Reported Command)
  | text _ => [.ok (.complete unit)]
  | literal before data binary more =>
    if data.length ≤ maxLiteral then
      .ok (.continuing data.length (mode ≠ .nonSynchronising))
        :: more.reports maxLiteral mode unit (p ++ (line mode before data binary ++ data))
    else [.error { fault := .literalTooLong data.length, tag := some unit.tag
                   raw := p ++ line mode before data binary }]

/-- What comes behind the first literal that is too long, if there is one. -/
def behindLong? (maxLiteral : Nat) : Outline → Option Outline
  | text _ => none
  | literal _ data _ more =>
    if data.length ≤ maxLiteral then more.behindLong? maxLiteral else some more

end Outline

namespace Command

variable {config : Config} {mode : LiteralMode} {unit : Command} {p before data : Bytes}
  {binary : Bool} {required : Nat}

/-- A line that announces a literal which fits is taken, and the literal reported. -/
theorem leads_announced (pieces : List Bytes) (rest : Bytes) (hrequired : required ≤ p.length)
    (hline : (Outline.line mode before data binary).IsLine)
    (hfit : (Outline.line mode before data binary).length ≤ config.limits.maxLineLength)
    (hmark : parse config.limits.maxLiteralLength (p ++ Outline.line mode before data binary)
      = .ok (.incomplete (.literal data.length (mode ≠ .nonSynchronising)))) :
    Reception.Leads (lawful_grammar config) pieces
      ⟨(), .gathering p required, Outline.line mode before data binary ++ rest⟩
      [.ok (.continuing data.length (mode ≠ .nonSynchronising))]
      ⟨(), .gathering (p ++ Outline.line mode before data binary)
        (p ++ (Outline.line mode before data binary ++ data)).length, rest⟩ := by
  have hlen : (p ++ (Outline.line mode before data binary ++ data)).length
      = (p ++ Outline.line mode before data binary).length + data.length := by
    simp only [List.length_append, Nat.add_assoc]
  have hannounce : required < (p ++ Outline.line mode before data binary).length + data.length := by
    have := List.length_pos_iff.2 hline.ne_nil
    rw [List.length_append]
    omega
  rw [hlen]
  exact Reception.leads_of_parse_inr _ pieces rest (.line hrequired hline hfit) fun buffer =>
    Reception.parse_of_literal (G := grammar config) (g := ()) hmark hannounce

/-- The data that have been announced are taken, and one more line is needed. -/
theorem leads_data (pieces : List Bytes) (rest : Bytes)
    (hdata : data ≠ [] →
      parse config.limits.maxLiteralLength (p ++ data) = .ok (.incomplete .line)) :
    Reception.Leads (lawful_grammar config) pieces
      ⟨(), .gathering p (p ++ data).length, data ++ rest⟩ []
      ⟨(), .gathering (p ++ data) (p ++ data).length, rest⟩ := by
  by_cases hd : data = []
  · subst hd
    rw [List.append_nil]
    exact .refl _ _ _
  · have hpos := List.length_pos_iff.2 hd
    have htakes : Reception.Takes (grammar config).maxLineLength p (p ++ data).length data := by
      refine .literal ?_ ?_
      · rw [List.length_append]
        omega
      · rw [List.length_append, Nat.add_sub_cancel_left]
    exact Reception.leads_of_parse_inl _ pieces rest htakes fun buffer =>
      Reception.parse_of_line (G := grammar config) (g := ()) (hdata hd)

/-- A line that announces a literal which is too long is refused, and the literal skipped. -/
theorem leads_refused (pieces : List Bytes) (rest : Bytes) (hrequired : required ≤ p.length)
    (hline : Byte.lf ∉ before) (hlimit : data.length < Decimal.limit)
    (hfit : (Outline.line .nonSynchronising before data binary).length
      ≤ config.limits.maxLineLength)
    (hrefused : parse config.limits.maxLiteralLength
        (p ++ Outline.line .nonSynchronising before data binary)
      = .error { fault := .literalTooLong data.length, tag := some unit.tag }) :
    Reception.Leads (lawful_grammar config) pieces
      ⟨(), .gathering p required, Outline.line .nonSynchronising before data binary
        ++ (data ++ rest)⟩
      [.error { fault := .literalTooLong data.length, tag := some unit.tag
                raw := p ++ Outline.line .nonSynchronising before data binary }]
      ⟨(), .discarding .line, rest⟩ := by
  have hisLine := Outline.isLine_line .nonSynchronising hline hlimit binary
  have hrefuse (buffer : Bytes) : Reception.parse (grammar config) () buffer
        (p ++ Outline.line .nonSynchronising before data binary) required
      = .inr (.error { fault := .literalTooLong data.length, tag := some unit.tag
                       raw := p ++ Outline.line .nonSynchronising before data binary },
        ⟨(), .discarding (.literal data.length), buffer⟩) := by
    have hparse : (grammar config).parse () (p ++ Outline.line .nonSynchronising before data binary)
        = ((), .error { fault := .literalTooLong data.length, tag := some unit.tag }) :=
      congrArg (Prod.mk ()) hrefused
    rw [Reception.parse, hparse]
    simp only [Reception.refuse, (heeds config).recovery_line p hline hlimit]
  have hfirst := Reception.leads_of_parse_inr (lawful_grammar config) pieces (data ++ rest)
    (.line hrequired hisLine hfit) hrefuse
  exact hfirst.trans (Reception.leads_literal _ pieces () data rest)

/-- However a command arrives, the reports of it come before what follows it is looked at. If a
literal of it is too long, its sender must not have waited, and the rest must not be cut inside of a
marker. -/
theorem Told.leads {o : Outline} (h : Told config.limits.maxLiteralLength mode unit p o)
    (hfit : ∀ l ∈ Bytes.physicalLines o.literals (o.segments mode).concat,
      l.length ≤ config.limits.maxLineLength) (hrequired : required ≤ p.length)
    {pieces : List Bytes} {rest : Bytes}
    (hlong : ∀ more, o.behindLong? config.limits.maxLiteralLength = some more →
      mode = .nonSynchronising ∧ more.Skippable ∧ more.Uncut pieces rest) :
    Reception.Leads (lawful_grammar config) pieces
      ⟨(), .gathering p required, (o.segments mode).concat ++ rest⟩
      (o.reports config.limits.maxLiteralLength mode unit p) ⟨(), .empty, rest⟩ := by
  induction h generalizing required with
  | @last p s hs hend =>
    rw [Outline.segments, Segments.concat_ofBytes, Outline.literals, Bytes.physicalLines,
      Bytes.lines_of_isLine hs, List.forall_mem_singleton] at hfit
    rw [Outline.segments, Segments.concat_ofBytes]
    have hparse := hend []
    rw [List.append_nil] at hparse
    exact Reception.leads_of_parse_inr _ pieces rest (.line hrequired hs hfit) fun buffer =>
      Reception.parse_of_complete (G := grammar config) (g := ()) hparse
  | @literal p before data binary more hline hlimit hmark hrefused hdata hmore ih =>
    have hisLine := Outline.isLine_line mode hline hlimit binary
    rw [Outline.concat_segments_literal, Outline.literals, ← List.append_assoc,
      Bytes.physicalLines_cons hisLine, List.forall_mem_cons] at hfit
    rw [Outline.concat_segments_literal, List.append_assoc, List.append_assoc]
    by_cases hshort : data.length ≤ config.limits.maxLiteralLength
    · rw [Outline.behindLong?, if_pos hshort] at hlong
      rw [Outline.reports, if_pos hshort, ← List.singleton_append]
      refine (leads_announced pieces _ hrequired hisLine hfit.1 (hmark hshort)).trans ?_
      have hnext := hdata hshort
      rw [← List.append_assoc] at hnext ih ⊢
      exact (leads_data pieces _ hnext).trans (ih hshort hfit.2 (Nat.le_refl _) hlong)
    · rw [Outline.behindLong?, if_neg hshort] at hlong
      rw [Outline.reports, if_neg hshort]
      obtain ⟨rfl, hskip, hcut⟩ := hlong more rfl
      exact (leads_refused pieces _ hrequired hline hlimit hfit.1 (hrefused (by omega))).trans
        ((heeds config).leads_skippable _ hskip hcut.uncutBy)

end Command

namespace Outline

theorem behindLong?_prepend (maxLiteral : Nat) (s : Bytes) (o : Outline) :
    (o.prepend s).behindLong? maxLiteral = o.behindLong? maxLiteral := by
  cases o <;> rfl

/-- What comes behind a literal can be skipped if all of the outline can. -/
theorem Skippable.behindLong? {maxLiteral : Nat} {o more : Outline} (h : o.Skippable)
    (hmore : o.behindLong? maxLiteral = some more) : more.Skippable := by
  induction o with
  | text s => cases hmore
  | literal before data binary next ih =>
    rw [Outline.behindLong?] at hmore
    split at hmore
    · exact ih h.2.2 hmore
    · obtain rfl := Option.some.inj hmore
      exact h.2.2

/-- The only result is the command, or the refusal of its first literal that is too long. -/
theorem results_reports (maxLiteral : Nat) (mode : LiteralMode) (unit : Command) (p : Bytes)
    (o : Outline) : match o.literals.find? (maxLiteral < ·.length) with
      | none => Reported.results (o.reports maxLiteral mode unit p) = [.ok unit]
      | some d => ∃ raw, raw <+: p ++ (o.segments mode).concat
        ∧ Reported.results (o.reports maxLiteral mode unit p)
          = [.error { fault := .literalTooLong d.length, tag := some unit.tag, raw }] := by
  induction o generalizing p with
  | text s => rfl
  | literal before data binary more ih =>
    rw [literals, concat_segments_literal]
    by_cases hshort : data.length ≤ maxLiteral
    · have hnext := ih (p ++ (line mode before data binary ++ data))
      simp only [List.append_assoc] at hnext
      rw [List.find?_cons_of_neg (by simpa using hshort), reports, if_pos hshort]
      exact hnext
    · rw [List.find?_cons_of_pos (by simpa using hshort), reports, if_neg hshort]
      refine ⟨p ++ line mode before data binary, ?_, rfl⟩
      rw [← List.append_assoc]
      exact List.prefix_append _ _

end Outline

/-! ## Commands one after the other -/

namespace Command

/-- A client that does not wait. -/
def eager : Writer := { literalPlus := true }

/-- What a client sends for these commands. -/
def sent (w : Writer) (cs : List Command) : Bytes := (cs.map fun c => (c.write w).concat).flatten

/-- What comes behind a literal of a command can be skipped. -/
theorem WellFormed.skippable {c : Command} (h : c.WellFormed Decimal.limit) {maxLiteral : Nat}
    {more : Outline} (hmore : c.outline.behindLong? maxLiteral = some more) : more.Skippable := by
  obtain ⟨-, hargs⟩ := Item.reads_outlineMore .nonSynchronising c.args .empty 0 h.args
  rw [outline, Outline.behindLong?_prepend] at hmore
  exact (hargs.skippable (Nest.items?_pushAll c.args)).behindLong? hmore

/-- No read begins inside of the announcement of a literal that is skipped, which is one behind a
literal that is too long, in the same command. -/
def SkipsWhole (maxLiteral : Nat) (reads : List Bytes) : List Command → Prop
  | [] => True
  | c :: cs =>
    (∀ more, c.outline.behindLong? maxLiteral = some more → more.Uncut reads (sent eager cs))
      ∧ SkipsWhole maxLiteral reads cs

/-- What a server should make of a command: the command itself if all its literals fit, and
otherwise a refusal of the first one that does not, with the command's tag and its bytes so far. -/
def Answers (maxLiteral : Nat) (c : Command) (result : Except Malformed Command) : Prop :=
  match c.literals.find? (maxLiteral < ·.length) with
  | none => result = .ok { c with continuation := false }
  | some d => ∃ raw, raw <+: (c.write eager).concat
    ∧ result = .error { fault := .literalTooLong d.length, tag := some c.tag, raw }

/-- The reports of a command hold one result. -/
theorem exists_answer (maxLiteral : Nat) (c : Command) :
    ∃ result, Reported.results (c.outline.reports maxLiteral .nonSynchronising
      { c with continuation := false } []) = [result] ∧ Answers maxLiteral c result := by
  have hresult := Outline.results_reports maxLiteral .nonSynchronising
    { c with continuation := false } [] c.outline
  have hwrite : (c.outline.segments .nonSynchronising).concat = (c.write eager).concat :=
    congrArg Segments.concat (write_eq_segments eager c).symm
  rw [literals_outline, hwrite, List.nil_append] at hresult
  unfold Answers
  split at hresult
  · exact ⟨_, hresult, rfl⟩
  · obtain ⟨raw, hraw, hresult⟩ := hresult
    exact ⟨_, hresult, raw, hraw, rfl⟩

/-- The reports of a command, and of those that follow it. -/
theorem leads_sent {config : Config} {cs : List Command}
    (hwell : ∀ c ∈ cs, c.WellFormed Decimal.limit)
    (hfit : ∀ c ∈ cs, ∀ l ∈ Bytes.physicalLines c.literals (c.write eager).concat,
      l.length ≤ config.limits.maxLineLength) {reads : List Bytes}
    (hcut : SkipsWhole config.limits.maxLiteralLength reads cs) :
    Reception.Leads (lawful_grammar config) reads ⟨(), .empty, sent eager cs⟩
      (cs.flatMap fun c => c.outline.reports config.limits.maxLiteralLength .nonSynchronising
        { c with continuation := false } []) ⟨(), .empty, []⟩ := by
  induction cs with
  | nil => exact .refl _ _ _
  | cons c cs ih =>
    rw [List.forall_mem_cons] at hwell hfit
    have htold := hwell.1.told config.limits.maxLiteralLength eager
    have hlines := hfit.1
    rw [← literals_outline, write_eq_segments] at hlines
    have hfirst := htold.leads hlines (Nat.le_refl 0)
      fun more hmore => ⟨rfl, hwell.1.skippable hmore, hcut.1 more hmore⟩
    rw [← write_eq_segments] at hfirst
    exact hfirst.trans (ih hwell.2 hfit.2 hcut.2)

/-- However the bytes of commands arrive whose client does not wait, a server has one result for
each command, in order: the command itself, or the refusal of its first literal that is too long. No
read must begin inside of the announcement of a literal that is skipped. -/
theorem answers_reports {config : Config} {cs : List Command}
    (hwell : ∀ c ∈ cs, c.WellFormed Decimal.limit)
    (hfit : ∀ c ∈ cs, ∀ l ∈ Bytes.physicalLines c.literals (c.write eager).concat,
      l.length ≤ config.limits.maxLineLength) {pieces : List Bytes} (hne : [] ∉ pieces)
    (hpieces : pieces.flatten = sent eager cs) (chunk : Nat)
    (hcut : SkipsWhole config.limits.maxLiteralLength (Bytes.readBy chunk pieces) cs) :
    List.Forall₂ (Answers config.limits.maxLiteralLength) cs
      (Reported.results (Receiver.reports (lawful_grammar config) () chunk pieces)) := by
  have hleads := leads_sent hwell hfit hcut
  have hflatten : (Bytes.readBy chunk pieces).flatten = sent eager cs :=
    (Bytes.flatten_readBy chunk hne).trans hpieces
  rw [← hflatten] at hleads
  rw [Receiver.reports_eq_feed, Reception.Leads.feed_eq hleads]
  clear hleads hflatten hpieces hcut hfit hwell
  induction cs with
  | nil => exact .nil
  | cons c cs ih =>
    obtain ⟨result, hresult, hanswers⟩ := exists_answer config.limits.maxLiteralLength c
    rw [List.flatMap_cons, Reported.results_append, hresult]
    exact .cons hanswers ih

/-- Two literals that are too long, and one that would be a command if it were not skipped, with
cuts in a literal, before an announcement that is skipped and behind it. -/
theorem answers_reports_append :
    let config : Config := { limits := { maxLiteralLength := 4 } }
    let append : Command := {
      tag := Bytes.ascii "a", verb := Bytes.ascii "APPEND"
      args := [.literal (Bytes.ascii "hello!") false, .literal (Bytes.ascii "b N\r\n") true] }
    let noop : Command := { tag := Bytes.ascii "c", verb := Bytes.ascii "NOOP" }
    let pieces := [Bytes.ascii "a APPEND \x7b6+\x7d\r\nhel", Bytes.ascii "lo! ~",
      Bytes.ascii "\x7b5+\x7d\r\n", Bytes.ascii "b N\r\n\r", Bytes.ascii "\nc NOOP\r\n"]
    (∀ c ∈ [append, noop], c.WellFormed Decimal.limit)
      ∧ (∀ c ∈ [append, noop], ∀ l ∈ Bytes.physicalLines c.literals (c.write eager).concat,
        l.length ≤ config.limits.maxLineLength)
      ∧ [] ∉ pieces ∧ pieces.flatten = sent eager [append, noop]
      ∧ SkipsWhole config.limits.maxLiteralLength (Bytes.readBy 4096 pieces) [append, noop]
      ∧ List.Forall₂ (Answers config.limits.maxLiteralLength) [append, noop]
        (Reported.results (Receiver.reports (lawful_grammar config) () 4096 pieces)) := by
  intro config append noop pieces
  have hwell : ∀ c ∈ [append, noop], c.WellFormed Decimal.limit := by
    rw [List.forall_mem_cons, List.forall_mem_singleton]
    constructor
    · refine ⟨⟨by decide, by decide +kernel⟩, ⟨by decide, by decide +kernel⟩,
        .inr (by decide +kernel), ⟨?_, ?_, trivial⟩⟩
      · exact ⟨by decide, by decide⟩
      · exact ⟨by decide, by decide⟩
    · exact ⟨⟨by decide, by decide +kernel⟩, ⟨by decide, by decide +kernel⟩,
        .inr (by decide +kernel), trivial⟩
  have hfit : ∀ c ∈ [append, noop], ∀ l ∈ Bytes.physicalLines c.literals (c.write eager).concat,
      l.length ≤ config.limits.maxLineLength := by
    decide +kernel
  have hne : [] ∉ pieces := by decide
  have hpieces : pieces.flatten = sent eager [append, noop] := by decide +kernel
  have hreads : Bytes.readBy 4096 pieces = pieces :=
    ReadEvent.pieces_reads_map_data hne (by decide)
  have hcut : SkipsWhole config.limits.maxLiteralLength (Bytes.readBy 4096 pieces)
      [append, noop] := by
    rw [hreads]
    refine ⟨?_, ?_, trivial⟩
    · rintro more hmore
      obtain rfl := Option.some.inj hmore
      exact ⟨by decide +kernel, trivial⟩
    · rintro more hmore
      cases hmore
  exact ⟨hwell, hfit, hne, hpieces, hcut, answers_reports hwell hfit hne hpieces 4096 hcut⟩

/-- A read that begins inside of the announcement of a literal that is skipped makes a command of
the literal. -/
theorem not_answers_reports_cut :
    let config : Config := { limits := { maxLiteralLength := 5 } }
    let command : Command := {
      tag := Bytes.ascii "a", verb := Bytes.ascii "X"
      args := [.literal (Bytes.ascii "hello!") false, .literal (Bytes.ascii "b N\r\n") false] }
    let pieces := [Bytes.ascii "a X \x7b6+\x7d\r\nhello! \x7b5",
      Bytes.ascii "+\x7d\r\nb N\r\n\r\n"]
    command.WellFormed Decimal.limit
      ∧ (∀ l ∈ Bytes.physicalLines command.literals (command.write eager).concat,
        l.length ≤ config.limits.maxLineLength)
      ∧ [] ∉ pieces ∧ pieces.flatten = sent eager [command]
      ∧ .ok { tag := Bytes.ascii "b", verb := Bytes.ascii "N" }
        ∈ Reported.results (Receiver.reports (lawful_grammar config) () 4096 pieces)
      ∧ ¬List.Forall₂ (Answers config.limits.maxLiteralLength) [command]
        (Reported.results (Receiver.reports (lawful_grammar config) () 4096 pieces)) := by
  intro config command pieces
  have hwell : command.WellFormed Decimal.limit := by
    refine ⟨⟨by decide, by decide +kernel⟩, ⟨by decide, by decide +kernel⟩,
      .inr (by decide +kernel), ⟨?_, ?_, trivial⟩⟩
    · exact ⟨by decide, by decide⟩
    · exact ⟨by decide, by decide⟩
  have hne : [] ∉ pieces := by decide
  have hreads : Bytes.readBy 4096 pieces = pieces :=
    ReadEvent.pieces_reads_map_data hne (by decide)
  have hresults : ∃ refusal more,
      Reported.results (Receiver.reports (lawful_grammar config) () 4096 pieces)
        = .error refusal :: .ok { tag := Bytes.ascii "b", verb := Bytes.ascii "N" } :: more := by
    have hempty : Reception.advance (grammar config) ⟨(), .empty, []⟩
        = (.ok (.needMore 1), ⟨(), .empty, []⟩) :=
      Reception.advance_of_report (by decide +kernel)
    -- the first literal is refused, and what comes without its line end is dropped
    have hrefused : Reception.advance (grammar config)
        ⟨(), .empty, Bytes.ascii "a X \x7b6+\x7d\r\nhello! \x7b5"⟩
        = (.error { fault := .literalTooLong 6, tag := some (Bytes.ascii "a")
                    raw := Bytes.ascii "a X \x7b6+\x7d\r\n" },
          ⟨(), .discarding (.literal 6), Bytes.ascii "hello! \x7b5"⟩) :=
      Reception.advance_of_report (by decide +kernel)
    have hskipped : Reception.advance (grammar config)
        ⟨(), .discarding (.literal 6), Bytes.ascii "hello! \x7b5"⟩
        = (.ok (.needMore 1), ⟨(), .discarding .line, []⟩) :=
      (Reception.advance_of_step (by decide +kernel : Reception.step (grammar config) _
        = .inl ⟨(), .discarding .line, Bytes.ascii " \x7b5"⟩)).trans
        (Reception.advance_of_report (by decide +kernel))
    -- no marker is seen at the end of the line, so the literal is read
    have hread : Reception.advance (grammar config)
        ⟨(), .discarding .line, Bytes.ascii "+\x7d\r\nb N\r\n\r\n"⟩
        = (.ok (.complete { tag := Bytes.ascii "b", verb := Bytes.ascii "N" }),
          ⟨(), .empty, Bytes.crlf⟩) :=
      (Reception.advance_of_step (by decide +kernel : Reception.step (grammar config) _
        = .inl ⟨(), .empty, Bytes.ascii "b N\r\n\r\n"⟩)).trans
        (Reception.advance_of_report (by decide +kernel))
    have hreach : Reception.Reaches (lawful_grammar config) _ _ _ _ :=
      ((Reception.Reaches.of_piece hempty (Bytes.ascii "a X \x7b6+\x7d\r\nhello! \x7b5")).trans
        (.of_report hrefused (by simp))).trans
      ((Reception.Reaches.of_piece hskipped (Bytes.ascii "+\x7d\r\nb N\r\n\r\n")).trans
        (.of_report hread (by simp)))
    have hfeed := hreach []
    rw [Receiver.reports_eq_feed, hreads]
    exact ⟨_, _, congrArg Reported.results hfeed⟩
  obtain ⟨refusal, more, hresults⟩ := hresults
  rw [hresults]
  refine ⟨hwell, by decide +kernel, hne, by decide +kernel, by simp, ?_⟩
  rintro (_ | ⟨-, hmore⟩)
  cases hmore

end Command

end Imap

end MailProtocol
