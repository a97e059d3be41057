import MailProtocol.Proofs.Imap.Recovery
import MailProtocol.Proofs.Imap.ResponseRoundTrip

/-!
# What has been sent so far

A client that waits sends a command segment by segment, and the server asks for each segment but the
first. `Command.Progress` says how far the client has come, and what it has been asked for on its
way; `Command.Progress.feed` says what the server makes of that: the commands that have been sent
whole, and one request for each segment that has been sent or is still missing.

What a server has written is read by the client as the same responses, one by one
(`Response.results_feed`).
-/

namespace MailProtocol

/-- Without a wait in either part there is none. -/
theorem Segments.rest_append {s t : Segments} (hs : s.rest = []) (ht : t.rest = []) :
    (s ++ t).rest = [] := by
  show (join s.first s.rest t).rest = []
  rw [hs]
  exact ht

namespace Imap

/-! ## Outlines whose literals all fit -/

namespace Outline

variable {maxLiteral : Nat} {mode : LiteralMode}

/-- Nothing is skipped. -/
theorem behindLong?_eq_none {o : Outline} (hfit : ∀ d ∈ o.literals, d.length ≤ maxLiteral) :
    o.behindLong? maxLiteral = none := by
  induction o with
  | text s => rfl
  | literal before data binary more ih =>
    rw [literals, List.forall_mem_cons] at hfit
    rw [behindLong?, if_pos hfit.1]
    exact ih hfit.2

/-- The only result is the command. -/
theorem results_reports_of_fits (unit : Command) (p : Bytes) {o : Outline}
    (hfit : ∀ d ∈ o.literals, d.length ≤ maxLiteral) :
    Reported.results (o.reports maxLiteral mode unit p) = [.ok unit] := by
  have hnone : o.literals.find? (maxLiteral < ·.length) = none :=
    List.find?_eq_none.2 fun d hd => by simpa using hfit d hd
  have hresults := results_reports maxLiteral mode unit p o
  rwa [hnone] at hresults

/-- The server asks for every segment but the first. -/
theorem length_dues_reports (hmode : mode ≠ .inline) (unit : Command) (p : Bytes) {o : Outline}
    (hfit : ∀ d ∈ o.literals, d.length ≤ maxLiteral) (before : Nat) :
    (Reported.dues before (o.reports maxLiteral mode unit p)).length
      = (o.segments mode).rest.length := by
  induction o generalizing p with
  | text s => rfl
  | literal text data binary more ih =>
    rw [literals, List.forall_mem_cons] at hfit
    have hmore := ih (p ++ (line mode text data binary ++ data)) hfit.2
    rw [reports, if_pos hfit.1, Reported.dues, List.length_append]
    show _ + (Reported.dues before (more.reports maxLiteral mode unit _)).length = _
    rw [hmore]
    cases mode with
    | inline => exact absurd rfl hmode
    | nonSynchronising => rw [rest_segments (by simp), rest_segments (by simp)]; rfl
    | synchronising => rw [segments_synchronising, List.length_cons, Nat.add_comm]; rfl

end Outline

namespace Command

variable {config : Config} {unit : Command}

/-- Of a command that has been sent in part, the server has asked for the segment that comes after
each one that has been sent. -/
theorem Told.leads_part {p : Bytes} {o : Outline}
    (h : Told config.limits.maxLiteralLength .synchronising unit p o)
    (hfit : ∀ d ∈ o.literals, d.length ≤ config.limits.maxLiteralLength)
    (hlines : ∀ l ∈ Bytes.physicalLines o.literals (o.segments .synchronising).concat,
      l.length ≤ config.limits.maxLineLength) {required : Nat} (hrequired : required ≤ p.length)
    (pieces : List Bytes) {ss pending : List Bytes} (hpending : pending ≠ [])
    (hrest : (o.segments .synchronising).rest = ss ++ pending) :
    ∃ os p' required', Reception.Leads (lawful_grammar config) pieces
        ⟨(), .gathering p required, (o.segments .synchronising).first ++ ss.flatten⟩ os
        ⟨(), .gathering p' required', []⟩
      ∧ Reported.results os = [] ∧ ∀ before, (Reported.dues before os).length = ss.length + 1 := by
  induction h generalizing required ss with
  | last =>
    -- a single segment is not sent in part
    obtain ⟨-, hnil⟩ := List.append_eq_nil_iff.1 hrest.symm
    exact absurd hnil hpending
  | @literal p before data binary more hline hlimit hmark hrefused hdata hmore ih =>
    have hisLine : (Outline.line .synchronising before data binary).IsLine :=
      .append hline (announces_literalMarker hlimit false binary).isLine
    rw [Outline.literals, List.forall_mem_cons] at hfit
    rw [Outline.concat_segments_literal, Outline.literals, ← List.append_assoc,
      Bytes.physicalLines_cons hisLine, List.forall_mem_cons] at hlines
    have hannounced (rest : Bytes) := leads_announced pieces rest hrequired hisLine hlines.1
      (hmark hfit.1)
    rw [← List.append_assoc p] at hannounced
    rw [Outline.segments_synchronising] at hrest ⊢
    rcases ss with _ | ⟨s, ss⟩
    · exact ⟨_, _, _, hannounced [], rfl, fun before => rfl⟩
    · obtain ⟨rfl, htail⟩ := List.cons.inj hrest
      have hnext := hdata hfit.1
      rw [← List.append_assoc] at hnext ih
      obtain ⟨os, p', required', hleads, hresults, hdues⟩ :=
        ih hfit.1 hfit.2 hlines.2 (Nat.le_refl _) htail
      rw [List.flatten_cons, List.append_assoc]
      refine ⟨_, p', required', (hannounced _).trans ((leads_data pieces _ hnext).trans hleads), ?_,
        fun before => ?_⟩
      · rw [List.nil_append, Reported.results_append, hresults]
        rfl
      · rw [List.nil_append, Reported.dues_append, List.length_append, hdues, List.length_cons]
        exact Nat.add_comm _ _

/-! ## Commands one after the other -/

/-- The command as a server reads it. -/
def asRead (w : Writer) (c : Command) : Command :=
  { c with continuation := !w.literalPlus && Item.anyLiteral c.args }

/-- How often a client waits while it sends these commands. -/
def waits (w : Writer) (cs : List Command) : Nat := (cs.flatMap fun c => (c.write w).rest).length

theorem sent_append (w : Writer) (cs cs' : List Command) :
    sent w (cs ++ cs') = sent w cs ++ sent w cs' := by
  simp [sent]

theorem sent_singleton (w : Writer) (c : Command) : sent w [c] = (c.write w).concat := by
  simp [sent]

theorem waits_append (w : Writer) (cs cs' : List Command) :
    waits w (cs ++ cs') = waits w cs + waits w cs' := by
  simp [waits]

theorem waits_singleton (w : Writer) (c : Command) : waits w [c] = (c.write w).rest.length := by
  simp [waits]

theorem Writer.mode_ne_inline (w : Writer) : w.mode ≠ .inline := by
  rw [mode]
  split <;> simp

/-- A server that reads these commands asks for every segment that its client waits with. -/
theorem leads_sent_of_fits (w : Writer) {cs : List Command}
    (hwell : ∀ c ∈ cs, c.WellFormed config.limits.maxLiteralLength)
    (hlines : ∀ c ∈ cs, ∀ l ∈ Bytes.physicalLines c.literals (c.write w).concat,
      l.length ≤ config.limits.maxLineLength) (pieces : List Bytes) (rest : Bytes) :
    ∃ os, Reception.Leads (lawful_grammar config) pieces ⟨(), .empty, sent w cs ++ rest⟩ os
        ⟨(), .empty, rest⟩
      ∧ Reported.results os = cs.map (.ok ∘ asRead w)
      ∧ ∀ before, (Reported.dues before os).length = waits w cs := by
  induction cs with
  | nil => exact ⟨[], .refl _ _ _, rfl, fun _ => rfl⟩
  | cons c cs ih =>
    rw [List.forall_mem_cons] at hwell hlines
    obtain ⟨os, hleads, hresults, hdues⟩ := ih hwell.2 hlines.2
    obtain ⟨hlimit, hfit⟩ := (wellFormed_iff _ c).1 hwell.1
    have htold := hlimit.told config.limits.maxLiteralLength w
    have hfirst := hlines.1
    rw [← literals_outline] at hfit hfirst
    rw [write_eq_segments] at hfirst
    rw [← List.singleton_append, sent_append, sent_singleton, write_eq_segments, List.append_assoc]
    have hwhole : Reception.Leads (lawful_grammar config) pieces
        ⟨(), .empty, (c.outline.segments w.mode).concat ++ (sent w cs ++ rest)⟩ _
        ⟨(), .empty, sent w cs ++ rest⟩ :=
      htold.leads hfirst (Nat.le_refl 0) fun more hmore => by
        rw [Outline.behindLong?_eq_none hfit] at hmore
        cases hmore
    refine ⟨_, hwhole.trans hleads, ?_, fun before => ?_⟩
    · rw [Reported.results_append, Outline.results_reports_of_fits _ _ hfit, hresults]
      rfl
    · rw [Reported.dues_append, List.length_append, hdues,
        Outline.length_dues_reports w.mode_ne_inline _ _ hfit, ← write_eq_segments]
      rw [waits_append, waits_singleton]

/-- How far a client has come that sends these commands: how often it has gone on after a wait, the
segments that wait, and what it has written. -/
inductive Progress (w : Writer) : List Command → Nat → List Bytes → Bytes → Prop
  | whole (cs : List Command) : Progress w cs (waits w cs) [] (sent w cs)
  | part (cs : List Command) {c : Command} {ss pending : List Bytes} (hpending : pending ≠ [])
    (hrest : (c.write w).rest = ss ++ pending) :
    Progress w (cs ++ [c]) (waits w cs + ss.length) pending
      (sent w cs ++ ((c.write w).first ++ ss.flatten))

namespace Progress

variable {w : Writer} {cs : List Command} {n : Nat} {pending : List Bytes} {wire : Bytes}

/-- The next command is begun. -/
theorem send (h : Progress w cs n [] wire) (c : Command) :
    Progress w (cs ++ [c]) n (c.write w).rest (wire ++ (c.write w).first) := by
  cases h with
  | part _ hpending => exact absurd rfl hpending
  | whole =>
    by_cases hrest : (c.write w).rest = []
    · have hwhole := Progress.whole (w := w) (cs ++ [c])
      rw [waits_append, waits_singleton, sent_append, sent_singleton, Segments.concat,
        Segments.toList, hrest, List.flatten_singleton] at hwhole
      rw [hrest]
      exact hwhole
    · have hpart : Progress w (cs ++ [c]) (waits w cs + ([] : List Bytes).length)
          (c.write w).rest (sent w cs ++ ((c.write w).first ++ ([] : List Bytes).flatten)) :=
        .part cs hrest rfl
      rwa [List.flatten_nil, List.append_nil] at hpart

/-- A segment that waits is sent. -/
theorem answer {segment : Bytes} (h : Progress w cs n (segment :: pending) wire) :
    Progress w cs (n + 1) pending (wire ++ segment) := by
  cases h with
  | @part cs c ss _ _ hrest =>
    have hflatten : sent w cs ++ ((c.write w).first ++ ss.flatten) ++ segment
        = sent w cs ++ ((c.write w).first ++ (ss ++ [segment]).flatten) := by
      simp
    have hcount : waits w cs + ss.length + 1 = waits w cs + (ss ++ [segment]).length := by
      rw [List.length_append, List.length_singleton, Nat.add_assoc]
    rw [List.append_cons] at hrest
    rw [hflatten, hcount]
    by_cases hpending : pending = []
    · subst hpending
      rw [List.append_nil] at hrest
      have hwhole := Progress.whole (w := w) (cs ++ [c])
      rwa [waits_append, waits_singleton, sent_append, sent_singleton, Segments.concat,
        Segments.toList, List.flatten_cons, hrest] at hwhole
    · exact .part cs hpending hrest

/-- However the bytes arrive that have been written so far, the server has read the commands that
have been sent whole, and asked for one segment more than it has got of the last one, if that has
been sent in part. -/
theorem feed (h : Progress w cs n pending wire)
    (hwell : ∀ c ∈ cs, c.WellFormed config.limits.maxLiteralLength)
    (hlines : ∀ c ∈ cs, ∀ l ∈ Bytes.physicalLines c.literals (c.write w).concat,
      l.length ≤ config.limits.maxLineLength)
    {pieces : List Bytes} (hpieces : pieces.flatten = wire)
    {os : List (Reported Command)}
    (hos : os = Reception.feed (lawful_grammar config) { state := (), buffer := [] } pieces) :
    Reported.results os = (if pending = [] then cs else cs.dropLast).map (.ok ∘ asRead w)
      ∧ (Reported.dues 0 os).length = n + if pending = [] then 0 else 1 := by
  subst hos
  cases h with
  | whole =>
    obtain ⟨os, hleads, hresults, hdues⟩ := leads_sent_of_fits w hwell hlines pieces []
    rw [List.append_nil, ← hpieces] at hleads
    rw [Reception.Leads.feed_eq hleads, if_pos rfl, if_pos rfl]
    exact ⟨hresults, hdues 0⟩
  | @part cs c ss _ hpending hrest =>
    rw [List.forall_mem_append, List.forall_mem_singleton] at hwell hlines
    -- only a client that waits sends in part
    have hmode : w.mode = .synchronising := by
      by_contra hmode
      rw [write_eq_segments, Outline.rest_segments hmode] at hrest
      exact hpending (List.append_eq_nil_iff.1 hrest.symm).2
    obtain ⟨os, hleads, hresults, hdues⟩ :=
      leads_sent_of_fits w hwell.1 hlines.1 pieces ((c.write w).first ++ ss.flatten)
    obtain ⟨hlimit, hfit⟩ := (wellFormed_iff _ c).1 hwell.2
    have htold := hlimit.told config.limits.maxLiteralLength w
    have hlast := hlines.2
    rw [← literals_outline] at hfit hlast
    rw [write_eq_segments, hmode] at hlast hrest hleads
    rw [hmode] at htold
    obtain ⟨os', p', required', hpart, hresults', hdues'⟩ :=
      htold.leads_part hfit hlast (Nat.le_refl 0) pieces hpending hrest
    rw [write_eq_segments, hmode] at hpieces
    rw [← hpieces] at hleads
    rw [Reception.Leads.feed_eq (hleads.trans hpart), if_neg hpending, if_neg hpending,
      List.dropLast_concat]
    refine ⟨?_, ?_⟩
    · rw [Reported.results_append, hresults, hresults', List.append_nil]
    · rw [Reported.dues_append, List.length_append, hdues, hdues', Nat.add_assoc]

end Progress

end Command

/-! ## Responses one after the other -/

namespace Response

/-- The response asks the client to go on. -/
def isContinuation : Response → Bool
  | continuation _ => true
  | tagged _ _ | untagged _ | data _ => false

theorem Same.isContinuation_eq {r r' : Response} (h : r'.Same r) :
    r'.isContinuation = r.isContinuation := by
  cases h <;> rfl

/-- Responses that are read back ask as often as those that were written. -/
theorem countP_isContinuation {rs us : List Response} (h : List.Forall₂ Same rs us) :
    rs.countP isContinuation = us.countP isContinuation := by
  induction h with
  | nil => rfl
  | cons hsame _ ih => rw [List.countP_cons, List.countP_cons, ih, hsame.isContinuation_eq]

theorem Same.literals_eq {r r' : Response} (h : r'.Same r) : r'.literals = r.literals := by
  cases h <;> rfl

/-- A status is one segment. -/
theorem rest_writeStatus (status : Status) : status.write.rest = [] := by
  have hcode : ((status.text.code.map Code.write).getD .empty).rest = [] := by
    cases status.text.code with
    | none => rfl
    | some c =>
      refine Segments.rest_append (Segments.rest_append rfl ?_) rfl
      rw [Item.writeMore_eq_segments]
      exact Outline.rest_segments (by simp) _
  refine Segments.rest_append (Segments.rest_append rfl hcode) ?_
  split <;> rfl

/-- A response is one segment, so its server does not wait. -/
theorem rest_write (r : Response) : r.write.rest = [] := by
  refine Segments.rest_append ?_ rfl
  cases r with
  | tagged tag status => exact Segments.rest_append rfl (rest_writeStatus status)
  | untagged status => exact Segments.rest_append rfl (rest_writeStatus status)
  | data items =>
    refine Segments.rest_append rfl ?_
    rw [Item.writeAll_eq_segments]
    exact Outline.rest_segments (by simp) _
  | continuation text => rfl

theorem concat_write (r : Response) : r.write.concat = r.write.first := by
  rw [Segments.concat, Segments.toList, rest_write, List.flatten_singleton]

/-- What a server sends for these responses. -/
def sent (us : List Response) : Bytes := (us.map fun u => u.write.concat).flatten

theorem sent_append (us us' : List Response) : sent (us ++ us') = sent us ++ sent us' := by
  simp [sent]

theorem sent_singleton (u : Response) : sent [u] = u.write.concat := by
  simp [sent]

/-- With everything there, a client reads the responses, one by one. -/
theorem results_trace {config : Config} {us : List Response}
    (hwell : ∀ u ∈ us, u.WellFormed config.limits.maxLiteralLength)
    (hlines : ∀ u ∈ us, ∀ l ∈ Bytes.physicalLines u.literals u.write.concat,
      l.length ≤ config.limits.maxLineLength) (inData : Bool) :
    ∃ rs, (Delivery.results (Reception.trace (lawful_grammar config)
        ⟨inData, .empty, sent us⟩)).map Prod.fst = rs.map .ok ∧ List.Forall₂ Same rs us := by
  induction us generalizing inData with
  | nil =>
    have hadv : Reception.advance (grammar config) ⟨inData, .empty, []⟩
        = (.ok (.needMore 1), ⟨inData, .empty, []⟩) :=
      Reception.advance_of_report (Reception.step_line_short (Nat.le_refl 0) rfl (Nat.zero_le _))
    refine ⟨[], ?_, .nil⟩
    rw [show sent [] = [] from rfl, Reception.trace_of_needMore _ hadv]
    rfl
  | cons u us ih =>
    rw [List.forall_mem_cons] at hwell hlines
    obtain ⟨r, hparse, hsame⟩ := parse_writeContent hwell.1 (sent us)
    have hparse' : (parse config.limits.maxLiteralLength (u.write.concat ++ sent us)).2
        = .ok (.complete r (sent us)) := by
      rw [write, Segments.concat_append, Segments.concat_ofBytes, List.append_assoc, hparse]
    have hgathers := (incremental_grammar config).gathers (g := inData) hparse'
    rw [hsame.literals_eq] at hgathers
    obtain ⟨inData', htrace⟩ := Reception.results_trace_of_gathers (lawful_grammar config) hgathers
      hlines.1 (Nat.le_refl 0) inData (sent us)
    obtain ⟨rs, hrs, hall⟩ := ih hwell.2 hlines.2 inData'
    refine ⟨r :: rs, ?_, .cons hsame hall⟩
    show (Delivery.results (Reception.trace _
      ⟨inData, .gathering [] 0, u.write.concat ++ sent us⟩)).map Prod.fst = _
    rw [htrace, List.map_cons, hrs]
    rfl

/-- However the bytes arrive, a client reads the responses, one by one. -/
theorem results_feed {config : Config} {us : List Response}
    (hwell : ∀ u ∈ us, u.WellFormed config.limits.maxLiteralLength)
    (hlines : ∀ u ∈ us, ∀ l ∈ Bytes.physicalLines u.literals u.write.concat,
      l.length ≤ config.limits.maxLineLength) (inData : Bool) {pieces : List Bytes}
    (hpieces : pieces.flatten = sent us) :
    ∃ rs, Reported.results (Reception.feed (lawful_grammar config) ⟨inData, .empty, []⟩ pieces)
        = rs.map .ok ∧ List.Forall₂ Same rs us := by
  obtain ⟨rs, hrs, hsame⟩ := results_trace hwell hlines inData
  rw [← hpieces] at hrs
  refine ⟨rs, ?_, hsame⟩
  rw [Reception.feed_eq_trace _ rfl (Delivery.isOk_of_results hrs), Reported.results_map_fst]
  exact hrs

end Response

end Imap

end MailProtocol
