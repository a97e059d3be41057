import MailProtocol.Proofs.Reception.Runs
import MailProtocol.Proofs.Reception.Skipping

/-!
# Refusals

A reception of an incremental grammar that has begun afresh gathers a unit or skips input, and has
nothing left over from the unit before (`Standing`). So when the grammar refuses, it has been asked
about what was gathered with one more line (`exists_refusal`).

A line that is too long is refused as a whole or by its front, as it has come. In both cases the
line says what is skipped after it, as long as no read begins where that would hide it
(`exists_feed_of_long`).
-/

namespace MailProtocol

variable {γ υ : Type} {G : Grammar γ υ} {literals : υ → List Bytes}

namespace Reception

/-- Where a step comes to. -/
def reached (b : Reception γ ⊕ Report γ υ) : Reception γ := b.elim id Prod.snd

/-- What a step reports, missing bytes apart. -/
def told : Reception γ ⊕ Report γ υ → List (Reported υ)
  | .inl _ | .inr (.ok (.needMore _), _) => []
  | .inr (o, _) => [o]

theorem told_of_ne_needMore {o : Reported υ} (ho : ∀ n, o ≠ .ok (.needMore n)) (r : Reception γ) :
    told (.inr (o, r)) = [o] := by
  rcases o with _ | ⟨_ | n | _⟩
  · rfl
  · rfl
  · exact absurd rfl (ho n)
  · rfl

/-- What holds at the start and is kept by steps and by more bytes holds wherever a run has come. -/
theorem Runs.induction_reached {P : List (Reported υ) → Reception γ → Prop} {r r' : Reception γ}
    {pieces : List Bytes} {os : List (Reported υ)} (h : Runs G r pieces os r') (hstart : P [] r)
    (hstep : ∀ os a, P os a → P (os ++ told (Reception.step G a)) (reached (Reception.step G a)))
    (hextend : ∀ os a piece, P os a → P os (a.extend piece)) : P os r' := by
  induction h with
  | start => exact hstart
  | step _ ha ih | needMore _ ha ih =>
    have hnext := hstep _ _ ih
    rwa [ha, told, List.append_nil] at hnext
  | report _ ha ho ih =>
    have hnext := hstep _ _ ih
    rwa [ha, told_of_ne_needMore ho] at hnext
  | read _ _ piece ih => exact hextend _ _ piece ih

/-! ## Where a reception stands between steps -/

/-- A unit is being gathered, or input is being skipped. -/
inductive Standing (G : Grammar γ υ) : Fragment → Prop
  | gathering {p : Bytes} {required : Nat} (hp : Awaits G p required) :
    Standing G (.gathering p required)
  | discarding (what : Discard) : Standing G (.discarding what)

theorem standing_empty (G : Grammar γ υ) : Standing G .empty :=
  .gathering ⟨.inl rfl, fun hlt => absurd hlt (Nat.lt_irrefl 0)⟩

theorem standing_recovery (G : Grammar γ υ) (g : γ) (raw : Bytes) :
    Standing G (recovery G g raw) := by
  rw [recovery]
  split
  · exact .discarding _
  · exact standing_empty G

/-- Asking the grammar after a piece has been taken leaves nothing over. -/
theorem standing_parse (hG : G.Lawful) (hinc : G.Incremental literals) {p piece : Bytes}
    {required : Nat} (hp : Awaits G p required) (hpiece : Takes G.maxLineLength p required piece)
    (g : γ) (rest : Bytes) :
    Standing G (reached (parse G g rest (p ++ piece) required)).fragment := by
  have hasked := asked_parse G g rest (p ++ piece) required
  generalize parse G g rest (p ++ piece) required = b at hasked
  cases hasked with
  | complete hparse =>
    obtain ⟨rfl, -⟩ := hp.reads_of_takes hG hinc hpiece (congrArg Prod.snd hparse)
    exact standing_empty G
  | incomplete hparse => exact .gathering (.of_incomplete hparse hpiece.le_length)
  | announced hparse => exact .gathering (.of_announced hparse)
  | refused => exact standing_recovery G _ _

/-- A step leaves nothing over. -/
theorem standing_step (hG : G.Lawful) (hinc : G.Incremental literals) {r : Reception γ}
    (h : Standing G r.fragment) : Standing G (reached (step G r)).fragment := by
  obtain ⟨g, fragment, buffer⟩ := r
  cases h with
  | @gathering p required hp =>
    have hcases := gatheringStep_step G g p required buffer
    generalize step G ⟨g, .gathering p required, buffer⟩ = b at hcases
    cases hcases with
    | takes _ hpiece => exact standing_parse hG hinc hp hpiece g _
    | needMore n => exact .gathering hp
    | long => exact standing_recovery G g _
    | overflow => exact .discarding .line
  | discarding what =>
    rcases step_skip_cases (G := G) g what buffer with
      ⟨f, rest, hstep, rfl | ⟨what', rfl⟩⟩ | ⟨n, what', hstep⟩
    all_goals rw [hstep]
    · exact standing_empty G
    · exact .discarding what'
    · exact .discarding what'

theorem Runs.standing (hG : G.Lawful) (hinc : G.Incremental literals) {g : γ} {r : Reception γ}
    {pieces : List Bytes} {os : List (Reported υ)}
    (h : Runs G { state := g, buffer := [] } pieces os r) : Standing G r.fragment :=
  h.induction_reached (P := fun _ r => Standing G r.fragment) (standing_empty G)
    (fun _ _ => standing_step hG hinc) fun _ _ _ ha => ha

/-! ## What the grammar refuses -/

/-- The grammar refuses what has been gathered with one more line. -/
structure Refusal (G : Grammar γ υ) (r : Reception γ) (m : Malformed) (r' : Reception γ)
    (gathered line : Bytes) : Prop where
  fragment : ∃ required, required ≤ gathered.length ∧ r.fragment = .gathering gathered required
  isLine : line.IsLine
  buffer : r.buffer = line ++ r'.buffer
  parse : ∃ report, G.parse r.state (gathered ++ line) = (r'.state, .error report)
    ∧ m = { report with raw := gathered ++ line }
  recovery : r'.fragment = recovery G r'.state (gathered ++ line)

/-- What is refused, if not for its length, is refused by the grammar. -/
theorem exists_refusal (hinc : G.Incremental literals) {r r' : Reception γ} {m : Malformed}
    (h : Standing G r.fragment) (hstep : step G r = .inr (.error m, r'))
    (hm : m.fault ≠ .lineTooLong) : ∃ gathered line, Refusal G r m r' gathered line := by
  obtain ⟨g, fragment, buffer⟩ := r
  cases h with
  | @gathering p required hp =>
    have hcases := gatheringStep_step G g p required buffer
    rw [hstep] at hcases
    generalize hb : (Sum.inr (.error m, r') : Reception γ ⊕ Report γ υ) = b at hcases
    cases hcases with
    | @takes piece rest hbuffer hpiece =>
      have hasked := asked_parse G g rest (p ++ piece) required
      rw [← hb] at hasked
      generalize hb' : (Sum.inr (.error m, r') : Reception γ ⊕ Report γ υ) = b' at hasked
      cases hasked with
      | complete | incomplete | announced => simp at hb'
      | refused hparse =>
        obtain ⟨hm', rfl⟩ := Prod.mk.inj (Sum.inr.inj hb')
        obtain rfl := Except.error.inj hm'
        cases hpiece with
        | literal hwait hlen =>
          -- what has been announced is not refused
          obtain ⟨g', synchronising, hmark⟩ := hp.announced hwait
          have hne : piece ≠ [] := List.length_pos_iff.1 (by omega)
          have hline := hinc.announced hmark hlen hne g
          rw [hparse] at hline
          cases hline
        | line hwait hline _ =>
          exact ⟨p, piece, ⟨required, hwait, rfl⟩, hline, hbuffer, ⟨_, hparse, rfl⟩, rfl⟩
    | needMore => simp at hb
    | long =>
      obtain ⟨hm', -⟩ := Prod.mk.inj (Sum.inr.inj hb)
      obtain rfl := Except.error.inj hm'
      exact absurd rfl hm
    | overflow =>
      obtain ⟨hm', -⟩ := Prod.mk.inj (Sum.inr.inj hb)
      obtain rfl := Except.error.inj hm'
      exact absurd rfl hm
  | discarding what =>
    rcases step_skip_cases (G := G) g what buffer with ⟨f, rest, hskip, -⟩ | ⟨n, what', hskip⟩
    · cases hstep.symm.trans hskip
    · cases hstep.symm.trans hskip

/-! ## Lines that are too long -/

/-- What a line announces is skipped. -/
theorem recovery_of_isLine (g : γ) {line : Bytes} (hline : line.IsLine) :
    recovery G g line = (G.literalToDiscard g line.trimLineEnding).elim .empty
      fun n => .discarding (.literal n) := by
  obtain ⟨front, hfront, hlast⟩ := Bytes.lastLine?_append_line hline []
  obtain rfl := List.suffix_nil.1 hfront
  rw [List.nil_append] at hlast
  exact recovery_of_lastLine? hlast g

/-- A line that is too long is refused, and what it announces is skipped, if no cut changes what it
announces. -/
theorem exists_feed_of_long (hG : G.Lawful) {g : γ} {p : Bytes} {required : Nat}
    (hrequired : required ≤ p.length) {line rest : Bytes} (hline : line.IsLine)
    (hlong : G.maxLineLength < line.length) (next : Option Nat) {there : Bytes}
    {coming : List Bytes} (h : there ++ coming.flatten = line ++ rest)
    (hnext : ∀ l : Bytes, l <:+ line → l ≠ [] →
      l = line ∨ (∃ later, later <:+ coming ∧ later.flatten = l ++ rest) →
      G.literalToDiscard g (Bytes.trimLineEnding l) = next) :
    ∃ raw there' coming', coming' <:+ coming ∧ there' ++ coming'.flatten = rest
      ∧ feed hG ⟨g, .gathering p required, there⟩ coming
        = .error { fault := .lineTooLong, raw }
          :: feed hG ⟨g, next.elim .empty fun n => .discarding (.literal n), there'⟩ coming' := by
  induction coming generalizing there with
  | nil =>
    rw [List.flatten_nil, List.append_nil] at h
    subst h
    have hstep : step G ⟨g, .gathering p required, line ++ rest⟩ = _ :=
      step_line_long hrequired (Bytes.splitLine?_line hline rest) hlong
    refine ⟨line, rest, [], List.nil_suffix, List.append_nil rest, ?_⟩
    rw [refuse, recovery_of_isLine g hline, hnext line List.suffix_rfl hline.ne_nil (.inl rfl)]
      at hstep
    exact feed_of_report hG (advance_of_report hstep) (by simp) []
  | cons piece coming ih =>
    rcases Bytes.whole_or_part h with ⟨there', rfl, hrest⟩ | ⟨more, hne, rfl, hcoming⟩
    · have hstep : step G ⟨g, .gathering p required, line ++ there'⟩ = _ :=
        step_line_long hrequired (Bytes.splitLine?_line hline there') hlong
      refine ⟨line, there', _, List.suffix_rfl, hrest, ?_⟩
      rw [refuse, recovery_of_isLine g hline, hnext line List.suffix_rfl hline.ne_nil (.inl rfl)]
        at hstep
      exact feed_of_report hG (advance_of_report hstep) (by simp) _
    · have hnone := Bytes.splitLine?_of_append hline hne
      have hsuffix := List.suffix_append there more
      by_cases hfront : G.maxLineLength < there.length
      · -- the rest of the line says what is skipped
        have hstep : step G ⟨g, .gathering p required, there⟩ = _ :=
          step_line_overflow hrequired hnone hfront
        have hskip := leads_line hG (piece :: coming) next (hline.of_suffix hsuffix hne)
          fun l hl hl' hcut => hnext l (hl.trans hsuffix) hl' (.inr (by
            rcases hcut with rfl | hcut
            · exact ⟨_, List.suffix_rfl, hcoming⟩
            · exact hcut))
        obtain ⟨there', coming', hcoming', hthere', hfeed⟩ :=
          hskip [] (piece :: coming) List.suffix_rfl hcoming
        refine ⟨droppedNote there.length, there', coming', hcoming', hthere', ?_⟩
        rw [feed_of_report hG (advance_of_report hstep) (by simp)]
        exact congrArg _ hfeed
      · have hstep : step G ⟨g, .gathering p required, there⟩ = _ :=
          step_line_short hrequired hnone (Nat.le_of_not_lt hfront)
        rw [List.flatten_cons, ← List.append_assoc] at h
        obtain ⟨raw, there', coming', hcoming', hthere', hfeed⟩ :=
          ih h fun l hl hl' hcut => hnext l hl hl' (hcut.imp id fun hlater =>
            hlater.imp fun later hcut => ⟨hcut.1.trans (List.suffix_cons _ _), hcut.2⟩)
        refine ⟨raw, there', coming', hcoming'.trans (List.suffix_cons _ _), hthere', ?_⟩
        rw [feed_of_needMore_cons hG (advance_of_report hstep)]
        exact hfeed

/-! ## Units -/

/-- However a unit arrives whose lines fit, it is the only result before what follows it is looked
at. -/
theorem exists_leads_of_gathers (hG : G.Lawful) {unit : υ} {ds : List Bytes} {p s : Bytes}
    (h : G.Gathers unit ds p s)
    (hfit : ∀ l ∈ Bytes.physicalLines ds s, l.length ≤ G.maxLineLength) {required : Nat}
    (hrequired : required ≤ p.length) (g : γ) (pieces : List Bytes) (rest : Bytes) :
    ∃ g' os, Leads hG pieces ⟨g, .gathering p required, s ++ rest⟩ os ⟨g', .empty, rest⟩
      ∧ Reported.results os = [.ok unit] := by
  induction h generalizing required g with
  | @last p l hl hend =>
    rw [Bytes.physicalLines, Bytes.lines_of_isLine hl, List.forall_mem_singleton] at hfit
    have hunit := hend [] g
    rw [List.append_nil] at hunit
    exact ⟨_, _, leads_of_parse_inr hG pieces rest (.line hrequired hl hfit) fun buffer =>
      parse_of_complete hunit, rfl⟩
  | @literal p l d s ds synchronising hl hmark hdata hs ih =>
    rw [← List.append_assoc, Bytes.physicalLines_cons hl, List.forall_mem_cons] at hfit
    have hmore : required < (p ++ l).length + d.length := by
      have := List.length_pos_iff.2 hl.ne_nil
      rw [List.length_append]
      omega
    have hlen : (p ++ l).length + d.length = (p ++ (l ++ d)).length := by
      simp only [List.length_append, Nat.add_assoc]
    -- the line is taken, and the literal announced
    have hannounced := leads_of_parse_inr hG pieces (d ++ (s ++ rest))
      (.line hrequired hl hfit.1) fun buffer => parse_of_literal (hmark g) hmore
    rw [hlen] at hannounced
    rw [List.append_assoc, List.append_assoc]
    by_cases hd : d = []
    · subst hd
      rw [List.append_nil, List.nil_append] at *
      obtain ⟨g', os, hleads, hresults⟩ := ih hfit.2 (Nat.le_refl _) (G.parse g (p ++ l)).1
      exact ⟨g', _, hannounced.trans hleads, hresults⟩
    · -- so are its data, and one more line is needed
      have hpos := List.length_pos_iff.2 hd
      have hgathered : p ++ (l ++ d) = p ++ l ++ d := (List.append_assoc p l d).symm
      rw [hgathered] at ih hannounced hdata
      have htakes : Takes G.maxLineLength (p ++ l) (p ++ l ++ d).length d := by
        have hlength : (p ++ l ++ d).length = (p ++ l).length + d.length := List.length_append
        exact .literal (by omega) (by omega)
      have htaken := leads_of_parse_inl hG pieces (s ++ rest) htakes fun buffer =>
        parse_of_line (hdata hd (G.parse g (p ++ l)).1)
      obtain ⟨g', os, hleads, hresults⟩ := ih hfit.2 (Nat.le_refl _)
        (G.parse (G.parse g (p ++ l)).1 (p ++ l ++ d)).1
      exact ⟨g', _, (hannounced.trans htaken).trans hleads, hresults⟩

end Reception

end MailProtocol
