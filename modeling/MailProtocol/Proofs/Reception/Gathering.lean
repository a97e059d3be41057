import MailProtocol.Proofs.Reception.Cuts

/-!
# Reading line by line and all at once

A grammar is incremental (`Grammar.Incremental`) if every unit that it reads all at once is a row of
lines and announced literals, such that what has been gathered behind each of them is incomplete and
the grammar says exactly what comes next (`Grammar.Gathers`), and if it wants one more line when the
data of an announced literal have come.

Then a receiver reports the units that the grammar reads all at once, one after the other and
without a byte of what follows them (`prefix_results_pump`). Conversely, the first unit that is
reported is what the grammar reads all at once, whatever follows (`reads_of_results_pump`).
-/

namespace MailProtocol

variable {γ υ : Type} {G : Grammar γ υ}

/-! ## Incremental grammars -/

namespace Grammar

/-- What the grammar makes of a fragment, whatever its state. -/
def Reads (G : Grammar γ υ) (fragment : Bytes) (result : Except Malformed (Parsed υ)) : Prop :=
  ∀ g, (G.parse g fragment).2 = result

/-- The bytes `s` that complete a unit after the bytes `p`, with the contents of its literals that
are yet to come. -/
inductive Gathers (G : Grammar γ υ) (unit : υ) : List Bytes → Bytes → Bytes → Prop
  | last {p l : Bytes} (hl : l.IsLine)
    (hend : ∀ t, G.Reads (p ++ (l ++ t)) (.ok (.complete unit t))) : Gathers G unit [] p l
  | literal {p l d s : Bytes} {ds : List Bytes} {synchronising : Bool} (hl : l.IsLine)
    (hmark : G.Reads (p ++ l) (.ok (.incomplete (.literal d.length synchronising))))
    (hdata : d ≠ [] → G.Reads (p ++ (l ++ d)) (.ok (.incomplete .line)))
    (hs : Gathers G unit ds (p ++ (l ++ d)) s) : Gathers G unit (d :: ds) p (l ++ (d ++ s))

/-- Units are gathered line by line and literal by literal. -/
structure Incremental (G : Grammar γ υ) (literals : υ → List Bytes) : Prop where
  gathers : ∀ {g : γ} {c rest : Bytes} {unit : υ},
    (G.parse g (c ++ rest)).2 = .ok (.complete unit rest) → G.Gathers unit (literals unit) [] c
  announced : ∀ {g : γ} {p d : Bytes} {n : Nat} {synchronising : Bool},
    (G.parse g p).2 = .ok (.incomplete (.literal n synchronising)) → d.length = n → d ≠ [] →
      G.Reads (p ++ d) (.ok (.incomplete .line))

namespace Gathers

variable {unit : υ} {ds : List Bytes} {p s : Bytes}

/-- The last byte of a unit is a line feed. -/
theorem ends (h : G.Gathers unit ds p s) : ∃ content, s = content ++ [Byte.lf] := by
  induction h with
  | last hl _ =>
    obtain ⟨content, -, rfl⟩ := hl
    exact ⟨content, rfl⟩
  | @literal _ l d s _ _ _ _ _ hs ih =>
    obtain ⟨content, rfl⟩ := ih
    exact ⟨l ++ (d ++ content), by simp only [List.append_assoc]⟩

/-- The unit is read in the same way whatever follows it. -/
theorem reads (h : G.Gathers unit ds p s) (t : Bytes) :
    G.Reads (p ++ (s ++ t)) (.ok (.complete unit t)) := by
  induction h with
  | last _ hend => exact hend t
  | literal _ _ _ _ ih => simpa only [List.append_assoc] using ih

end Gathers

end Grammar

/-! ## Reports of units -/

namespace Delivery

/-- The units and refusals among the reports. -/
def results (ds : List (Delivery υ)) : List (Except Malformed υ × Bytes) :=
  ds.filterMap fun
    | (.ok (.complete unit), ahead) => some (.ok unit, ahead)
    | (.ok _, _) => none
    | (.error report, ahead) => some (.error report, ahead)

@[simp]
theorem results_complete (unit : υ) (ahead : Bytes) (ds : List (Delivery υ)) :
    results ((.ok (.complete unit), ahead) :: ds) = (.ok unit, ahead) :: results ds := rfl

@[simp]
theorem results_continuing (missing : Nat) (goAhead : Bool) (ahead : Bytes)
    (ds : List (Delivery υ)) :
    results ((.ok (.continuing missing goAhead), ahead) :: ds) = results ds := rfl

@[simp]
theorem results_error (report : Malformed) (ahead : Bytes) (ds : List (Delivery υ)) :
    results ((.error report, ahead) :: ds) = (.error report, ahead) :: results ds := rfl

/-- These units as results, each with the bytes that are still ahead. -/
def accepted (units : List (υ × Bytes)) : List (Except Malformed υ × Bytes) :=
  units.map fun (unit, ahead) => (.ok unit, ahead)

/-- Units that come first come before the first refusal. -/
theorem prefix_results_untilRefusal_iff {units : List (υ × Bytes)} {ds : List (Delivery υ)} :
    accepted units <+: results (untilRefusal ds) ↔ accepted units <+: results ds := by
  induction ds generalizing units with
  | nil => rfl
  | cons d ds ih =>
    obtain ⟨report | outcome, ahead⟩ := d
    · -- nothing is accepted before a refusal that comes first
      cases units <;> simp [untilRefusal, accepted, results]
    · cases outcome with
      | complete unit =>
        cases units with
        | nil => simp [accepted]
        | cons u units =>
          simp only [untilRefusal, results_complete, accepted, List.map_cons,
            List.cons_prefix_cons]
          exact and_congr_right fun _ => ih
      | needMore n => exact ih
      | continuing missing goAhead => exact ih

/-- Reports that are alike begin with the same units. -/
theorem AllAlike.prefix_results {units : List (υ × Bytes)} {ds es : List (Delivery υ)}
    (h : AllAlike ds es) (hunits : accepted units <+: results ds) :
    accepted units <+: results es := by
  induction h generalizing units with
  | nil => exact hunits
  | @cons d e ds es hd _ ih =>
    cases hd with
    | error h ahead ahead' =>
      cases units with
      | nil => exact List.nil_prefix
      | cons u units =>
        rw [results_error, accepted, List.map_cons, List.cons_prefix_cons] at hunits
        simp at hunits
    | ok outcome ahead =>
      cases outcome with
      | complete unit =>
        cases units with
        | nil => exact List.nil_prefix
        | cons u units =>
          rw [results_complete, accepted, List.map_cons, List.cons_prefix_cons] at hunits ⊢
          exact ⟨hunits.1, ih hunits.2⟩
      | needMore n => exact ih hunits
      | continuing missing goAhead => exact ih hunits

end Delivery

/-- Reading in pieces gives the same first units as reading all at once. -/
theorem prefix_results_pump_iff (hG : G.Lawful) (g : γ) {pieces : List Bytes} (hne : [] ∉ pieces)
    (chunk : Nat) {units : List (υ × Bytes)} :
    Delivery.accepted units
        <+: Delivery.results (Receiver.pump hG { state := g } (.ofStream (.ofPieces pieces) chunk))
      ↔ Delivery.accepted units
        <+: Delivery.results (Reception.trace hG { state := g, buffer := pieces.flatten }) := by
  have halike := alike_pump_trace hG { state := g } _ rfl (Transport.gives_ofPieces hne chunk)
  refine Delivery.prefix_results_untilRefusal_iff.symm.trans
    (Iff.trans ⟨?_, ?_⟩ Delivery.prefix_results_untilRefusal_iff)
  · exact halike.prefix_results
  · exact halike.symm.prefix_results

/-! ## What is read all at once is reported -/

namespace Reception

/-- A unit is the next result where its lines fit, and nothing of what follows it is used. -/
theorem results_trace_of_gathers (hG : G.Lawful) {unit : υ} {ds : List Bytes} {p s : Bytes}
    (h : G.Gathers unit ds p s)
    (hfit : ∀ l ∈ Bytes.physicalLines ds s, l.length ≤ G.maxLineLength) {required : Nat}
    (hrequired : required ≤ p.length) (g : γ) (rest : Bytes) :
    ∃ g', Delivery.results (trace hG ⟨g, .gathering p required, s ++ rest⟩)
      = (.ok unit, rest) :: Delivery.results (trace hG { state := g', buffer := rest }) := by
  induction h generalizing required g with
  | @last p l hl hend =>
    rw [Bytes.physicalLines, Bytes.lines_of_isLine hl, List.forall_mem_singleton] at hfit
    have hstep := step_of_takes (G := G) (.line hrequired hl hfit) g rest
    have hunit := hend [] g
    rw [List.append_nil] at hunit
    rw [parse_of_complete hunit] at hstep
    rw [trace_of_complete hG (advance_of_report hstep)]
    exact ⟨_, Delivery.results_complete unit rest _⟩
  | @literal p l d s ds synchronising hl hmark hdata hs ih =>
    rw [← List.append_assoc, Bytes.physicalLines_cons hl, List.forall_mem_cons] at hfit
    have hmore : required < (p ++ l).length + d.length := by
      have := List.length_pos_iff.2 hl.ne_nil
      rw [List.length_append]
      omega
    have hlen : (p ++ l).length + d.length = (p ++ (l ++ d)).length := by
      simp only [List.length_append, Nat.add_assoc]
    -- the line is taken, and the literal announced
    have hstep := step_of_takes (G := G) (.line hrequired hl hfit.1) g (d ++ (s ++ rest))
    rw [parse_of_literal (hmark g) hmore, hlen] at hstep
    have htrace := trace_of_continuing hG (advance_of_report hstep)
    rw [List.append_assoc, List.append_assoc, htrace, Delivery.results_continuing]
    by_cases hd : d = []
    · subst hd
      rw [List.append_nil, List.nil_append] at *
      exact ih hfit.2 (Nat.le_refl _) _
    · -- so are its data, and one more line is needed
      have hwait : (p ++ l).length < (p ++ (l ++ d)).length := by
        have := List.length_pos_iff.2 hd
        omega
      have htakes : Takes G.maxLineLength (p ++ l) (p ++ (l ++ d)).length d :=
        .literal hwait (by omega)
      have hstep := step_of_takes htakes (G.parse g (p ++ l)).1 (s ++ rest)
      rw [List.append_assoc, parse_of_line (hdata hd _)] at hstep
      rw [trace_congr hG (advance_of_step hstep)]
      exact ih hfit.2 (Nat.le_refl _) _

end Reception

/-- The units at the front of a string as the grammar in the state `g` reads them one after the
other with everything there, each with what follows it. Their lines are not too long. -/
inductive Grammar.OneShot (G : Grammar γ υ) (literals : υ → List Bytes) (g : γ) :
    List (υ × Bytes) → Bytes → Prop
  | nil (rest : Bytes) : OneShot G literals g [] rest
  | cons {unit : υ} {piece rest : Bytes} {units : List (υ × Bytes)}
    (hparse : (G.parse g (piece ++ rest)).2 = .ok (.complete unit rest))
    (hfit : ∀ l ∈ Bytes.physicalLines (literals unit) piece, l.length ≤ G.maxLineLength)
    (hrest : OneShot G literals g units rest) :
    OneShot G literals g ((unit, rest) :: units) (piece ++ rest)

variable {literals : υ → List Bytes}

/-- The units that the grammar reads all at once are the first results, in order, and with each of
them nothing of what follows it has been used. -/
theorem prefix_results_pump (hG : G.Lawful) (hinc : G.Incremental literals) {g : γ}
    {units : List (υ × Bytes)} {s : Bytes} (h : G.OneShot literals g units s) (g' : γ)
    {pieces : List Bytes} (hne : [] ∉ pieces) (hs : pieces.flatten = s) (chunk : Nat) :
    Delivery.accepted units <+:
      Delivery.results (Receiver.pump hG { state := g' } (.ofStream (.ofPieces pieces) chunk)) := by
  rw [prefix_results_pump_iff hG g' hne, hs]
  clear hs
  induction h generalizing g' with
  | nil => exact List.nil_prefix
  | cons hparse hfit _ ih =>
    obtain ⟨g'', htrace⟩ :=
      Reception.results_trace_of_gathers hG (hinc.gathers hparse) hfit (Nat.le_refl 0) g' _
    rw [Delivery.accepted, List.map_cons]
    show _ <+: Delivery.results (Reception.trace hG ⟨g', .gathering [] 0, _⟩)
    rw [htrace, List.cons_prefix_cons]
    exact ⟨rfl, ih g''⟩

/-! ## What is reported is read all at once -/

namespace Reception

/-- What has been gathered is no unit yet, and a literal of which bytes are missing is just what the
grammar has asked for. -/
structure Awaits (G : Grammar γ υ) (p : Bytes) (required : Nat) : Prop where
  incomplete : p = [] ∨ ∃ g needs, (G.parse g p).2 = .ok (.incomplete needs)
  announced : p.length < required → ∃ g synchronising,
    (G.parse g p).2 = .ok (.incomplete (.literal (required - p.length) synchronising))

theorem Awaits.of_incomplete {g g' : γ} {p : Bytes} {required : Nat} {needs : Needs}
    (h : G.parse g p = (g', .ok (.incomplete needs))) (hfull : required ≤ p.length) :
    Awaits G p required :=
  ⟨.inr ⟨g, needs, congrArg Prod.snd h⟩, fun hlt => absurd hlt (Nat.not_lt.2 hfull)⟩

theorem Awaits.of_announced {g g' : γ} {p : Bytes} {missing : Nat} {synchronising : Bool}
    (h : G.parse g p = (g', .ok (.incomplete (.literal missing synchronising)))) :
    Awaits G p (p.length + missing) := by
  refine ⟨.inr ⟨g, _, congrArg Prod.snd h⟩, fun _ => ⟨g, synchronising, ?_⟩⟩
  rw [h, Nat.add_sub_cancel_left]

/-- A unit that is complete with the piece taken last uses up all that has been gathered, and is
complete whatever follows. -/
theorem Awaits.reads_of_takes {p piece rest : Bytes} {required : Nat} (h : Awaits G p required)
    (hG : G.Lawful) (hinc : G.Incremental literals)
    (hpiece : Takes G.maxLineLength p required piece) {g : γ} {unit : υ}
    (hparse : (G.parse g (p ++ piece)).2 = .ok (.complete unit rest)) :
    rest = [] ∧ ∀ t, G.Reads (p ++ piece ++ t) (.ok (.complete unit t)) := by
  cases hpiece with
  | literal hwait hlen =>
    obtain ⟨g', synchronising, hmark⟩ := h.announced hwait
    have hne : piece ≠ [] := List.length_pos_iff.1 (by omega)
    rw [hinc.announced hmark hlen hne g] at hparse
    cases hparse
  | line hwait hline hfit =>
    obtain ⟨c, hc⟩ := hG.suffix (Prod.eta (G.parse g _) ▸ congrArg (Prod.mk _) hparse)
    have hgathers := hinc.gathers (hc ▸ hparse)
    have hreads : ∀ t, G.Reads (c ++ t) (.ok (.complete unit t)) := hgathers.reads
    -- the unit does not end before the line, since it would have been complete before it
    have hbefore : ∀ a, p ≠ c ++ a := by
      rintro a rfl
      obtain ⟨content, rfl⟩ := hgathers.ends
      rcases h.incomplete with hnil | ⟨g', needs, hneeds⟩
      · simp at hnil
      · rw [hreads a g'] at hneeds
        cases hneeds
    rcases List.append_eq_append_iff.1 hc with ⟨a, hp, -⟩ | ⟨a, rfl, rfl⟩
    · exact absurd hp (hbefore a)
    · -- nor inside of it, since a line has its line feed at its end
      have hrest : rest = [] := by
        rcases List.eq_nil_or_concat a with rfl | ⟨a', b, rfl⟩
        · exact absurd (by simp) (hbefore [])
        · obtain ⟨content, hends⟩ := hgathers.ends
          rw [List.concat_eq_append, ← List.append_assoc] at hends
          obtain ⟨-, hb⟩ := List.append_inj' hends rfl
          rw [List.concat_eq_append, hb] at hline
          exact hline.eq_nil_of_append
      subst hrest
      rw [List.append_nil]
      exact ⟨rfl, hreads⟩

/-- How a reception stands in the string `s` before its first unit. -/
inductive Underway (G : Grammar γ υ) (s : Bytes) : Reception γ → Prop
  | gathering {state : γ} {p buffer : Bytes} {required : Nat} (hs : s = p ++ buffer)
    (hp : Awaits G p required) : Underway G s ⟨state, .gathering p required, buffer⟩

/-- What the first unit is: what the grammar reads from all bytes that have been used, whatever
follows them. -/
def ReportsFirst (G : Grammar γ υ) (s : Bytes) : Report γ υ → Prop
  | (.ok (.complete unit), r) =>
    ∃ c, s = c ++ r.buffer ∧ ∀ t, G.Reads (c ++ t) (.ok (.complete unit t))
  | (.ok _, r) => Underway G s r
  | (.error _, _) => True

/-- Asking the grammar after a piece has been taken keeps the place in the string. -/
theorem underway_parse (hG : G.Lawful) (hinc : G.Incremental literals) {p piece rest : Bytes}
    {required : Nat} (hp : Awaits G p required) (hpiece : Takes G.maxLineLength p required piece)
    (state : γ) :
    (∀ r', parse G state rest (p ++ piece) required = .inl r' → Underway G (p ++ piece ++ rest) r')
      ∧ ∀ b, parse G state rest (p ++ piece) required = .inr b →
        ReportsFirst G (p ++ piece ++ rest) b := by
  have hasked := asked_parse G state rest (p ++ piece) required
  generalize parse G state rest (p ++ piece) required = b at hasked
  cases hasked with
  | complete hparse =>
    obtain ⟨rfl, hreads⟩ := hp.reads_of_takes hG hinc hpiece (congrArg Prod.snd hparse)
    refine ⟨by simp, ?_⟩
    rintro b hb
    obtain rfl := Sum.inr.inj hb
    exact ⟨_, rfl, hreads⟩
  | incomplete hparse =>
    refine ⟨?_, by simp⟩
    rintro r' hr'
    obtain rfl := Sum.inl.inj hr'
    exact .gathering rfl (.of_incomplete hparse hpiece.le_length)
  | announced hparse =>
    refine ⟨by simp, ?_⟩
    rintro b hb
    obtain rfl := Sum.inr.inj hb
    exact .gathering rfl (.of_announced hparse)
  | refused =>
    refine ⟨by simp, ?_⟩
    rintro b hb
    obtain rfl := Sum.inr.inj hb
    trivial

/-- A step keeps the place in the string, and reports no unit but the first one in it. -/
theorem underway_step (hG : G.Lawful) (hinc : G.Incremental literals) {s : Bytes}
    {r : Reception γ} (h : Underway G s r) :
    (∀ r', step G r = .inl r' → Underway G s r')
      ∧ ∀ b, step G r = .inr b → ReportsFirst G s b := by
  obtain @⟨state, p, buffer, required, rfl, hp⟩ := h
  have hcases := gatheringStep_step G state p required buffer
  generalize step G ⟨state, .gathering p required, buffer⟩ = b at hcases
  cases hcases with
  | takes hbuffer hpiece =>
    subst hbuffer
    rw [← List.append_assoc]
    exact underway_parse hG hinc hp hpiece state
  | needMore n =>
    refine ⟨by simp, ?_⟩
    rintro b hb
    obtain rfl := Sum.inr.inj hb
    exact .gathering rfl hp
  | long | overflow =>
    refine ⟨by simp, ?_⟩
    rintro b hb
    obtain rfl := Sum.inr.inj hb
    trivial

theorem reportsFirst_advance (hG : G.Lawful) (hinc : G.Incremental literals) {s : Bytes}
    {r : Reception γ} (h : Underway G s r) : ReportsFirst G s (advance G r) :=
  iterate_induction (fun _ r' hr hstep => (underway_step hG hinc hr).1 r' hstep)
    (fun _ b hr hstep => (underway_step hG hinc hr).2 b hstep) r h

/-- The first unit of a trace, if nothing is refused before it. -/
theorem reads_of_results_trace (hG : G.Lawful) (hinc : G.Incremental literals) {s : Bytes}
    {r : Reception γ} (h : Underway G s r) {unit : υ} {ahead : Bytes}
    (hfirst : (Delivery.results (trace hG r)).head? = some (.ok unit, ahead)) :
    ∃ c, s = c ++ ahead ∧ ∀ t, G.Reads (c ++ t) (.ok (.complete unit t)) := by
  have hreport := reportsFirst_advance hG hinc h
  fun_induction trace hG r with
  | case1 => simp [Delivery.results] at hfirst
  | case2 r unit' r' hadv ih =>
    rw [hadv] at hreport
    obtain ⟨rfl, rfl⟩ := by simpa using hfirst
    exact hreport
  | case3 r missing goAhead r' hadv ih =>
    rw [hadv] at hreport
    exact ih hreport hfirst (reportsFirst_advance hG hinc hreport)
  | case4 => simp at hfirst

end Reception

/-- The first result of a receiver that begins afresh, if it is a unit, is what the grammar reads
all at once from the bytes that have been used by then, whatever follows these. -/
theorem reads_of_results_pump (hG : G.Lawful) (hinc : G.Incremental literals) (g : γ)
    {pieces : List Bytes} (hne : [] ∉ pieces) (chunk : Nat) {unit : υ} {ahead : Bytes}
    (h : (Delivery.results
        (Receiver.pump hG { state := g } (.ofStream (.ofPieces pieces) chunk))).head?
      = some (.ok unit, ahead)) :
    ∃ c, pieces.flatten = c ++ ahead ∧ ∀ t, G.Reads (c ++ t) (.ok (.complete unit t)) := by
  have hunits : Delivery.accepted [(unit, ahead)] <+:
      Delivery.results (Receiver.pump hG { state := g } (.ofStream (.ofPieces pieces) chunk)) := by
    obtain ⟨more, hmore⟩ := List.head?_eq_some_iff.1 h
    exact ⟨more, hmore.symm⟩
  rw [prefix_results_pump_iff hG g hne] at hunits
  obtain ⟨more, hmore⟩ := hunits
  have hstart : Reception.Underway G pieces.flatten { state := g, buffer := pieces.flatten } :=
    .gathering rfl ⟨.inl rfl, fun hlt => absurd hlt (Nat.lt_irrefl 0)⟩
  exact Reception.reads_of_results_trace hG hinc hstart (by rw [← hmore]; rfl)

/-- Receiving these pieces gives the units that the grammar reads from the same bytes all at once,
with each unit at the place where it ends, and a unit that is received first is what the grammar
reads, whatever follows. -/
structure Grammar.ReceivesOneShot (G : Grammar γ υ) (hG : G.Lawful) (literals : υ → List Bytes)
    (g : γ) (pieces : List Bytes) (chunk : Nat) : Prop where
  units : ∀ units, G.OneShot literals g units pieces.flatten → Delivery.accepted units
    <+: Delivery.results (Receiver.pump hG { state := g } (.ofStream (.ofPieces pieces) chunk))
  first : ∀ unit ahead,
    (Delivery.results
        (Receiver.pump hG { state := g } (.ofStream (.ofPieces pieces) chunk))).head?
      = some (.ok unit, ahead) →
    ∃ c, pieces.flatten = c ++ ahead ∧ ∀ t, G.Reads (c ++ t) (.ok (.complete unit t))

/-- Incremental grammars make no difference between receiving and reading all at once. -/
theorem Grammar.Incremental.receives (hinc : G.Incremental literals) (hG : G.Lawful) (g : γ)
    {pieces : List Bytes} (hne : [] ∉ pieces) (chunk : Nat) :
    G.ReceivesOneShot hG literals g pieces chunk where
  units _ h := prefix_results_pump hG hinc h g hne rfl chunk
  first _ _ h := reads_of_results_pump hG hinc g hne chunk h

end MailProtocol
