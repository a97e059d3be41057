import MailProtocol.Proofs.Imap.Skipping
import MailProtocol.Proofs.Imap.Wire
import MailProtocol.Proofs.Reception.Refusal

/-!
# Responses with a line that is too long

A client refuses a line that is too long without reading it, so it does not know of what response it
is the line. It heeds a marker at the end of the line if it took what it read before it for a data
response and refused that (`Settled`). In any other case it skips nothing but the line, whatever the
line announces.

If a marker is heeded, the rest of a data response is skipped (`GoesOn`), and otherwise the client
goes on right behind the line. In both cases it returns all responses that follow
(`skipsOverlong_reports`).
-/

namespace MailProtocol

namespace Imap

open LiteralMarker (atEnd? Closes)

namespace Response

/-! ## What the state says between responses -/

theorem fst_parse_of_complete {maxLiteral : Nat} {s rest : Bytes} {u : Response}
    (h : (parse maxLiteral s).2 = .ok (.complete u rest)) : (parse maxLiteral s).1 = false := by
  unfold parse at h ⊢
  split at h
  · rfl
  · rfl
  · rfl
  · split at h
    · rfl
    · next hne => exact absurd h (hne _ _)

theorem fst_parse_of_error {maxLiteral : Nat} {s : Bytes} {m : Malformed}
    (h : (parse maxLiteral s).2 = .error m) :
    (parse maxLiteral s).1 = true ↔ ∃ rest, kind s = .data rest := by
  unfold parse at h ⊢
  split at h
  · next hkind => simp [hkind]
  · next hkind => simp [hkind]
  · next hkind => simp [hkind]
  · next rest hkind =>
    split at h
    · cases h
    · simp [hkind]

/-- Between two responses, after these reports, `inData` says whether a data response has just been
refused. What it says after a line that was too long is left open. -/
structure Settled (os : List (Reported Response)) (inData : Bool) : Prop where
  returned : (∀ m, os.getLast? ≠ some (.error m)) → inData = false
  refused : ∀ m, os.getLast? = some (.error m) → m.fault ≠ .lineTooLong →
    (inData = true ↔ ∃ rest, kind m.raw = .data rest)

theorem settled_nil : Settled [] false := ⟨fun _ => rfl, nofun⟩

theorem settled_returned (os : List (Reported Response)) (outcome : Outcome Response) :
    Settled (os ++ [.ok outcome]) false := by
  refine ⟨fun _ => rfl, fun m hm => ?_⟩
  rw [List.getLast?_concat] at hm
  cases hm

theorem settled_refused {os : List (Reported Response)} {m : Malformed} {inData : Bool}
    (h : m.fault ≠ .lineTooLong → (inData = true ↔ ∃ rest, kind m.raw = .data rest)) :
    Settled (os ++ [.error m]) inData := by
  constructor
  · intro hne
    exact absurd List.getLast?_concat (hne m)
  · intro n hn
    rw [List.getLast?_concat] at hn
    obtain rfl := Except.error.inj (Option.some.inj hn)
    exact h

open Reception (Takes Standing told reached) in
/-- A step keeps to that. -/
theorem settled_step {config : Config} {os : List (Reported Response)} {r : Reception Bool}
    (hstand : Standing (grammar config) r.fragment)
    (h : r.fragment.bytes = [] → Settled os r.state) :
    (reached (Reception.step (grammar config) r)).fragment.bytes = [] →
      Settled (os ++ told (Reception.step (grammar config) r))
        (reached (Reception.step (grammar config) r)).state := by
  obtain ⟨inData, fragment, buffer⟩ := r
  cases hstand with
  | @gathering p required hp =>
    have hcases := Reception.gatheringStep_step (grammar config) inData p required buffer
    generalize Reception.step (grammar config) ⟨inData, .gathering p required, buffer⟩ = b at hcases
    cases hcases with
    | @takes piece rest _ hpiece =>
      have hne : p ++ piece ≠ [] := by
        refine List.append_ne_nil_of_right_ne_nil p ?_
        cases hpiece with
        | literal hwait hlen => exact List.length_pos_iff.1 (by omega)
        | line _ hline _ => exact hline.ne_nil
      have hasked := Reception.asked_parse (grammar config) inData rest (p ++ piece) required
      generalize Reception.parse (grammar config) inData rest (p ++ piece) required = b at hasked
      cases hasked with
      | @complete g' unit left hparse =>
        intro _
        have hstate := fst_parse_of_complete (congrArg Prod.snd hparse)
        obtain rfl : g' = false := (congrArg Prod.fst hparse).symm.trans hstate
        exact settled_returned os _
      | incomplete | announced => exact fun hnil => absurd hnil hne
      | @refused g' report hparse =>
        intro _
        refine settled_refused fun _ => ?_
        have hstate := fst_parse_of_error (congrArg Prod.snd hparse)
        rwa [show (parse config.limits.maxLiteralLength (p ++ piece)).1 = g' from
          congrArg Prod.fst hparse] at hstate
    | needMore n =>
      rw [told, List.append_nil]
      exact h
    | long | overflow => exact fun _ => settled_refused fun hne => absurd rfl hne
  | discarding what =>
    rcases Reception.step_skip_cases (G := grammar config) inData what buffer with
      ⟨f, rest, hstep, -⟩ | ⟨n, what', hstep⟩
    all_goals
      rw [hstep, told, List.append_nil]
      exact fun _ => h rfl

theorem settled_of_runs {config : Config} {past : List Bytes} {os : List (Reported Response)}
    {r : Reception Bool}
    (h : Reception.Runs (grammar config) { state := false, buffer := [] } past os r)
    (hbetween : r.fragment = .empty) : Settled os r.state := by
  have hG := lawful_grammar config
  have hinc := incremental_grammar config
  refine (h.induction_reached (P := fun os r => Reception.Standing (grammar config) r.fragment
    ∧ (r.fragment.bytes = [] → Settled os r.state)) ⟨Reception.standing_empty _, fun _ =>
      settled_nil⟩ (fun os a ha => ⟨Reception.standing_step hG hinc ha.1, settled_step ha.1 ha.2⟩)
    fun _ _ _ ha => ha).2 ?_
  rw [hbetween]
  rfl

/-! ## What follows the line -/

/-- While a client takes what it reads for a data response, it skips what is announced. -/
theorem heeds (config : Config) : Heeds (grammar config) true .inline where
  some h := congrArg (Option.map LiteralMarker.length) h
  none h := congrArg (Option.map LiteralMarker.length) h

/-- The outline of a data response, its line end included. -/
def dataOutline (items : List Item) : Outline :=
  (Item.outlineAll items ++ .text Bytes.crlf).prepend untaggedMark

theorem write_data_eq_segments (items : List Item) :
    (data items).write = (dataOutline items).segments .inline := by
  rw [dataOutline, Outline.segments_prepend, Outline.segments_append, ← Item.writeAll_eq_segments,
    ← Segments.append_assoc]
  rfl

theorem skippable_dataOutline {items : List Item} (h : Item.AllWellFormed Decimal.limit items) :
    (dataOutline items).Skippable := by
  have hmark : Closes untaggedMark := by
    intro before y hs
    have hmem : Byte.openBrace ∈ untaggedMark := hs ▸ by simp
    exact absurd hmem (by decide)
  have hitems := (Item.reads_outlineAll .inline items .empty 0 h).skippable
    (Nest.items?_pushAll items)
  exact hitems.prepend (by decide) hmark

/-- After the reports `os` a client refuses a line for its length, and then goes on with the bytes
`after`, some of which are there. If these are responses, it returns them all. -/
structure GoesOn (config : Config) (os : List (Reported Response)) (coming : List Bytes)
    (inData : Bool) (after : Bytes) (reports : List (Reported Response)) : Prop where
  place : ∃ raw there later, later <:+ coming ∧ there ++ later.flatten = after
    ∧ reports = os ++ .error { fault := .lineTooLong, raw }
      :: Reception.feed (lawful_grammar config) ⟨inData, .empty, there⟩ later
  responses : ∀ {us : List Response}, after = sent us →
    (∀ u ∈ us, u.WellFormed config.limits.maxLiteralLength) →
    (∀ u ∈ us, ∀ l ∈ Bytes.physicalLines u.literals u.write.concat,
      l.length ≤ config.limits.maxLineLength) →
    ∃ raw rs, Reported.results reports
        = Reported.results os ++ .error { fault := .lineTooLong, raw } :: rs.map .ok
      ∧ List.Forall₂ Same rs us

theorem goesOn_of_place {config : Config} {os reports : List (Reported Response)}
    {coming : List Bytes} {inData : Bool} {after : Bytes}
    (h : ∃ raw there later, later <:+ coming ∧ there ++ later.flatten = after
      ∧ reports = os ++ .error { fault := .lineTooLong, raw }
        :: Reception.feed (lawful_grammar config) ⟨inData, .empty, there⟩ later) :
    GoesOn config os coming inData after reports := by
  refine ⟨h, fun hsent hwell hfit => ?_⟩
  obtain ⟨raw, there, later, -, hafter, rfl⟩ := h
  have hpieces : (there :: later).flatten = sent _ := hafter.trans hsent
  obtain ⟨rs, hresults, hsame⟩ := results_feed hwell hfit inData hpieces
  have hfirst := (Reception.Runs.of_first (grammar config) inData there).reaches
    (lawful_grammar config) later
  rw [List.singleton_append, List.nil_append] at hfirst
  rw [hfirst] at hresults
  refine ⟨raw, rs, ?_, hsame⟩
  rw [Reported.results_append, Reported.results_cons, hresults]
  rfl

/-- What a client does that comes to a line which is too long, between two responses and after the
reports `os`. It goes on behind the line if it takes nothing for data or the line announces nothing.
If it still takes what it reads for data, and a data response begins with the line, then it goes on
behind that response. No read must begin inside of an announcement. -/
structure SkipsOverlong (config : Config) (os : List (Reported Response)) (coming : List Bytes)
    (inData : Bool) (line rest : Bytes) (reports : List (Reported Response)) : Prop where
  settled : Settled os inData
  behindLine : inData = false ∨ atEnd? line.trimLineEnding = none →
    GoesOn config os coming inData rest reports
  behindData : inData = true → ∀ {items : List Item} {before data after : Bytes} {binary : Bool}
    {more : Outline}, Item.AllWellFormed Decimal.limit items →
    dataOutline items = .literal before data binary more →
    line ++ rest = (Response.data items).write.concat ++ after →
    (dataOutline items).UncutBy .inline coming after →
    GoesOn config os coming inData after reports

section
variable {config : Config} {past coming : List Bytes} {os : List (Reported Response)}
  {r : Reception Bool} {line rest : Bytes}

/-- What comes of the line says where the client goes on. -/
theorem goesOn_of_feed (hpast : Reception.Runs (grammar config) { state := false, buffer := [] }
    past os r) {inData : Bool} {after : Bytes}
    (h : ∃ raw there later, later <:+ coming ∧ there ++ later.flatten = after
      ∧ Reception.feed (lawful_grammar config) r coming = .error { fault := .lineTooLong, raw }
        :: Reception.feed (lawful_grammar config) ⟨inData, .empty, there⟩ later) :
    GoesOn config os coming inData after
      (Reception.feed (lawful_grammar config) { state := false, buffer := [] }
        (past ++ coming)) := by
  obtain ⟨raw, there, later, hlater, hafter, hfeed⟩ := h
  refine goesOn_of_place ⟨raw, there, later, hlater, hafter, ?_⟩
  rw [hpast.reaches (lawful_grammar config) coming, hfeed]

/-- A line without a marker at its end has none at the end of any part that is left of it. -/
theorem atEnd?_trim_suffix (hline : line.IsLine) (h : atEnd? line.trimLineEnding = none)
    {l : Bytes} (hl : l <:+ line) (hne : l ≠ []) : atEnd? l.trimLineEnding = none := by
  rw [Option.eq_none_iff_forall_ne_some]
  intro m hm
  have htrim : l.trimLineEnding ≠ [] := by
    intro hnil
    rw [hnil] at hm
    cases hm
  obtain ⟨front, rfl⟩ := hl
  have hisLine : Bytes.IsLine l := hline.of_suffix (List.suffix_append front l) hne
  obtain ⟨binary, hmarker⟩ := LiteralMarker.atEnd?_append hm front
  rw [Bytes.trimLineEnding_append hisLine htrim, hmarker] at h
  cases h

/-- However its bytes arrive, a client refuses a line that is too long between two responses, as a
whole or by its front. It then goes on behind that line, or behind the data response that the line
begins. -/
theorem skipsOverlong_reports {chunk : Nat} {pieces : List Bytes}
    (hcut : Bytes.readBy chunk pieces = past ++ coming)
    (hpast : Reception.Runs (grammar config) { state := false, buffer := [] } past os r)
    (hbetween : r.fragment = .empty) (hahead : r.buffer ++ coming.flatten = line ++ rest)
    (hline : line.IsLine) (hlong : config.limits.maxLineLength < line.length) :
    SkipsOverlong config os coming r.state line rest
      (Receiver.reports (lawful_grammar config) false chunk pieces) := by
  have hG := lawful_grammar config
  have hsettled := settled_of_runs hpast hbetween
  rw [Receiver.reports_eq_feed, hcut]
  obtain ⟨inData, fragment, buffer⟩ := r
  obtain rfl : fragment = .gathering [] 0 := hbetween
  refine ⟨hsettled, fun hskip => goesOn_of_feed hpast ?_, fun hdata => ?_⟩
  · refine Reception.exists_feed_of_long hG (Nat.le_refl 0) hline hlong none hahead ?_
    intro l hl hne _
    rcases hskip with rfl | hnone
    · rfl
    · cases inData with
      | false => rfl
      | true => exact (heeds config).none (atEnd?_trim_suffix hline hnone hl hne)
  · obtain rfl : inData = true := hdata
    intro items before data after binary more hitems houtline hwritten hreads
    refine goesOn_of_feed hpast ?_
    obtain ⟨hbefore, hlimit, hmore⟩ := houtline ▸ skippable_dataOutline hitems
    rw [houtline] at hreads
    -- the line is the first one of the data response
    have hfirst := Outline.isLine_line .inline hbefore hlimit binary
    rw [write_data_eq_segments, houtline, Outline.concat_segments_literal, List.append_assoc,
      List.append_assoc] at hwritten
    have hsplit := Bytes.splitLine?_line hline rest
    rw [hwritten, Bytes.splitLine?_line hfirst] at hsplit
    obtain ⟨rfl, rfl⟩ := Prod.mk.inj (Option.some.inj hsplit)
    obtain ⟨raw, there, later, hlater, hthere, hfeed⟩ := Reception.exists_feed_of_long hG
      (Nat.zero_le ([] : Bytes).length) hline hlong (some data.length) hahead
      fun l => (heeds config).literalToDiscard_line hbefore hlimit hreads.1
    obtain ⟨there', later', hlater', hthere', hskipped⟩ :=
      ((Reception.leads_literal hG coming true data _).trans
        ((heeds config).leads_skippable hG hmore hreads.2)) there later hlater hthere
    exact ⟨raw, there', later', hlater', hthere', hfeed.trans (congrArg _ hskipped)⟩

end

/-- Behind a data response that was refused, one with two literals whose first line is too long. It
arrives with cuts in its line and in a literal. -/
theorem skipsOverlong_reports_fetch :
    let config : Config := { limits := { maxLineLength := 16 } }
    let fetch := [.atom (Bytes.ascii "1"), .atom (Bytes.ascii "FETCH"), .list [
      .atom (Bytes.ascii "BODY"), .literal (Bytes.ascii "hello") false,
      .literal (Bytes.ascii "abc") false]]
    let done : Response := .tagged (Bytes.ascii "a")
      { condition := .ok, text := { text := Bytes.ascii "done" } }
    let line := Bytes.ascii "* 1 FETCH (BODY \x7b5\x7d\r\n"
    let rest := Bytes.ascii "hello \x7b3\x7d\r\nabc)\r\na OK done\r\n"
    let past := [Bytes.ascii "* X )\r\n* 1 FET"]
    let coming := [Bytes.ascii "CH (BODY \x7b5\x7d\r\nhe",
      Bytes.ascii "llo \x7b3\x7d\r\nabc)\r\na OK done\r\n"]
    let refusal : Malformed := { fault := .unopenedParenthesis, raw := Bytes.ascii "* X )\r\n" }
    let r : Reception Bool := ⟨true, .empty, Bytes.ascii "* 1 FET"⟩
    Bytes.readBy 4096 (past ++ coming) = past ++ coming
      ∧ Reception.Runs (grammar config) { state := false, buffer := [] } past [.error refusal] r
      ∧ r.buffer ++ coming.flatten = line ++ rest ∧ line.IsLine
      ∧ config.limits.maxLineLength < line.length
      ∧ SkipsOverlong config [.error refusal] coming true line rest
        (Receiver.reports (lawful_grammar config) false 4096 (past ++ coming))
      ∧ line ++ rest = (Response.data fetch).write.concat ++ done.write.concat
      ∧ ∃ raw done', Reported.results
          (Receiver.reports (lawful_grammar config) false 4096 (past ++ coming))
          = [.error refusal, .error { fault := .lineTooLong, raw }, .ok done']
        ∧ done'.Same done := by
  intro config fetch done line rest past coming refusal r
  have hreads : Bytes.readBy 4096 (past ++ coming) = past ++ coming :=
    ReadEvent.pieces_reads_map_data (by decide) (by decide)
  have hrefused : Reception.step (grammar config)
      { state := false, buffer := Bytes.ascii "* X )\r\n* 1 FET" } = .inr (.error refusal, r) := by
    decide +kernel
  have hpast : Reception.Runs (grammar config) { state := false, buffer := [] } past
      [.error refusal] r :=
    (Reception.Runs.of_first _ false _).report hrefused (by simp)
  have hahead : r.buffer ++ coming.flatten = line ++ rest := by decide +kernel
  have hline : line.IsLine := by decide +kernel
  have hlong : config.limits.maxLineLength < line.length := by decide +kernel
  have hskips := skipsOverlong_reports hreads hpast rfl hahead hline hlong
  have hwritten : line ++ rest = (Response.data fetch).write.concat ++ done.write.concat := by
    decide +kernel
  refine ⟨hreads, hpast, hahead, hline, hlong, hskips, hwritten, ?_⟩
  have hitems : Item.AllWellFormed Decimal.limit fetch := by
    refine ⟨⟨by decide, ?_, by decide +kernel⟩, ⟨by decide, ?_, by decide +kernel⟩,
      ⟨⟨by decide, ?_, by decide +kernel⟩, ⟨by decide, by decide⟩, ⟨by decide, by decide⟩, trivial⟩,
      trivial⟩
    all_goals exact atomText_of_readAtom (by decide)
  have hdone : done.WellFormed config.limits.maxLiteralLength := by
    refine .tagged ⟨⟨by decide, by decide +kernel⟩, by decide⟩ (by decide) ⟨by decide, ?_, ?_⟩
    · rintro c hc
      cases hc
    · decide +kernel
  have hgoes := hskips.behindData rfl hitems rfl hwritten
    ⟨by decide +kernel, by decide +kernel, trivial⟩
  have hsent : done.write.concat = sent [done] := (sent_singleton done).symm
  obtain ⟨raw, rs, hresults, hsame⟩ := hgoes.responses hsent (List.forall_mem_singleton.2 hdone)
    (by decide +kernel)
  obtain _ | ⟨hdone', hnil⟩ := hsame
  cases hnil
  exact ⟨raw, _, hresults, hdone'⟩

/-- When no data response was refused before, the literal that a line which is too long announces is
read as responses. When one was, responses behind a status whose line is too long are skipped as a
literal. -/
theorem not_skipsOverlong_data_status :
    let config : Config := { limits := { maxLineLength := 16 } }
    let hi : Response := .untagged { condition := .ok, text := { text := Bytes.ascii "hi" } }
    let fetch : Response := .data [.atom (Bytes.ascii "1"), .atom (Bytes.ascii "FETCH"),
      .list [.atom (Bytes.ascii "BODY"), .literal (Bytes.ascii "* 2 X\r\n") false]]
    let done : Response := .tagged (Bytes.ascii "a")
      { condition := .ok, text := { text := Bytes.ascii "done" } }
    let status : Response := .untagged
      { condition := .ok, text := { text := Bytes.ascii "0123456789 \x7b7\x7d" } }
    let more : Response := .untagged
      { condition := .no, text := { text := Bytes.ascii "more" } }
    let reports (s : Bytes) :=
      Reported.results (Receiver.reports (lawful_grammar config) false 4096 [s])
    let streamOfData := sent [hi, fetch, done]
    let streamOfStatus := Bytes.ascii "* X )\r\n" ++ sent [status, hi, more]
    (∀ u ∈ [hi, fetch, done, status, more], u.WellFormed config.limits.maxLiteralLength)
      ∧ (∃ m n, reports streamOfData = [.ok hi, .error m,
          .ok (.data [.atom (Bytes.ascii "2"), .atom (Bytes.ascii "X")]), .error n, .ok done])
      ∧ (¬∃ raw, reports streamOfData
          = [.ok hi, .error { fault := .lineTooLong, raw }, .ok done])
      ∧ (∃ m n, reports streamOfStatus = [.error m, .error n, .ok more])
      ∧ ¬∃ m n, reports streamOfStatus = [.error m, .error n, .ok hi, .ok more] := by
  intro config hi fetch done status more reports streamOfData streamOfStatus
  have hG := lawful_grammar config
  have hplain (s : StatusText) (hcode : s.code = none) (hlf : Byte.lf ∉ s.text)
      (hhead : s.text.head? ≠ some Byte.openBracket) :
      s.WellFormed config.limits.maxLiteralLength :=
    ⟨hlf, fun c hc => absurd (hcode.symm.trans hc) (by simp), fun _ => hhead⟩
  have hwell : ∀ u ∈ [hi, fetch, done, status, more],
      u.WellFormed config.limits.maxLiteralLength := by
    simp only [List.forall_mem_cons, List.not_mem_nil, false_imp_iff, implies_true, and_true]
    refine ⟨.untagged (hplain _ rfl (by decide) (by decide)),
      .data ⟨⟨by decide, ?_, by decide +kernel⟩, ⟨by decide, ?_, by decide +kernel⟩,
        ⟨⟨by decide, ?_, by decide +kernel⟩, ⟨by decide, by decide⟩, trivial⟩, trivial⟩ ?_,
      .tagged ⟨⟨by decide, by decide +kernel⟩, by decide⟩ (by decide)
        (hplain _ rfl (by decide) (by decide)),
      .untagged (hplain _ rfl (by decide) (by decide)),
      .untagged (hplain _ rfl (by decide) (by decide))⟩
    · exact atomText_of_readAtom (by decide)
    · exact atomText_of_readAtom (by decide)
    · exact atomText_of_readAtom (by decide)
    · intro s hs condition
      obtain rfl : Bytes.ascii "1" = s := Item.atom.inj (Option.some.inj hs)
      cases condition <;> decide +kernel
  have hresults {s : Bytes} (hne : s ≠ []) (hfit : s.length ≤ max 4096 1)
      {os : List (Reported Response)} {inData : Bool} (h : Reception.Runs (grammar config)
        { state := false, buffer := s } [] os ⟨inData, .empty, []⟩) :
      reports s = Reported.results os := by
    have hreads : Bytes.readBy 4096 [s] = [s] :=
      ReadEvent.pieces_reads_map_data (by simpa using hne.symm) (by simpa using hfit)
    show Reported.results (Receiver.reports _ false 4096 [s]) = _
    rw [Receiver.reports_eq_feed, hreads]
    exact congrArg _ (((Reception.Runs.of_first (grammar config) false s).trans h).feed_eq hG)
  have hdata : ∃ m n, reports streamOfData = [.ok hi, .error m,
      .ok (.data [.atom (Bytes.ascii "2"), .atom (Bytes.ascii "X")]), .error n, .ok done] := by
    have hhi : Reception.step (grammar config) { state := false, buffer := streamOfData }
        = .inr (.ok (.complete hi), { state := false, buffer := sent [fetch, done] }) := by
      decide +kernel
    have hlong : Reception.step (grammar config) { state := false, buffer := sent [fetch, done] }
        = .inr (.error { fault := .lineTooLong
                         raw := Bytes.ascii "* 1 FETCH (BODY \x7b7\x7d\r\n" },
          { state := false, buffer := Bytes.ascii "* 2 X\r\n)\r\n" ++ sent [done] }) := by
      decide +kernel
    have hread : Reception.step (grammar config)
        { state := false, buffer := Bytes.ascii "* 2 X\r\n)\r\n" ++ sent [done] }
        = .inr (.ok (.complete (.data [.atom (Bytes.ascii "2"), .atom (Bytes.ascii "X")])),
          { state := false, buffer := Bytes.ascii ")\r\n" ++ sent [done] }) := by
      decide +kernel
    have hrest : Reception.step (grammar config)
        { state := false, buffer := Bytes.ascii ")\r\n" ++ sent [done] }
        = .inr (.error { fault := .missingResponse, tag := some (Bytes.ascii ")")
                         raw := Bytes.ascii ")\r\n" },
          { state := false, buffer := sent [done] }) := by
      decide +kernel
    have hdone : Reception.step (grammar config) { state := false, buffer := sent [done] }
        = .inr (.ok (.complete done), { state := false, buffer := [] }) := by
      decide +kernel
    have hruns := ((((Reception.Runs.start.report hhi (by simp)).report hlong (by simp)).report
      hread (by simp)).report hrest (by simp)).report hdone (by simp)
    exact ⟨_, _, hresults (by decide +kernel) (by decide +kernel) hruns⟩
  have hstatus : ∃ m n, reports streamOfStatus = [.error m, .error n, .ok more] := by
    have hrefused : Reception.step (grammar config) { state := false, buffer := streamOfStatus }
        = .inr (.error { fault := .unopenedParenthesis, raw := Bytes.ascii "* X )\r\n" },
          { state := true, buffer := sent [status, hi, more] }) := by
      decide +kernel
    have hlong : Reception.step (grammar config)
        { state := true, buffer := sent [status, hi, more] }
        = .inr (.error { fault := .lineTooLong
                         raw := Bytes.ascii "* OK 0123456789 \x7b7\x7d\r\n" },
          ⟨true, .discarding (.literal 7), sent [hi, more]⟩) := by
      decide +kernel
    -- the next status is skipped as a literal and the rest of its line
    have hskipped : Reception.step (grammar config)
        ⟨true, .discarding (.literal 7), sent [hi, more]⟩
        = .inl ⟨true, .discarding .line, Bytes.crlf ++ sent [more]⟩ := by
      decide +kernel
    have hline : Reception.step (grammar config)
        ⟨true, .discarding .line, Bytes.crlf ++ sent [more]⟩
        = .inl { state := true, buffer := sent [more] } := by
      decide +kernel
    have hmore : Reception.step (grammar config) { state := true, buffer := sent [more] }
        = .inr (.ok (.complete more), { state := false, buffer := [] }) := by
      decide +kernel
    have hruns := ((((Reception.Runs.start.report hrefused (by simp)).report hlong (by simp)).step
      hskipped).step hline).report hmore (by simp)
    exact ⟨_, _, hresults (by decide +kernel) (by decide +kernel) hruns⟩
  refine ⟨hwell, hdata, ?_, hstatus, ?_⟩
  · rintro ⟨raw, hclaim⟩
    obtain ⟨m, n, hfound⟩ := hdata
    rw [hfound] at hclaim
    simp at hclaim
  · rintro ⟨m, n, hclaim⟩
    obtain ⟨m', n', hfound⟩ := hstatus
    rw [hfound] at hclaim
    simp at hclaim

end Response

end Imap

end MailProtocol
