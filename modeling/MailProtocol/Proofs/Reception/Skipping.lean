import MailProtocol.Proofs.Reception.Feeding

/-!
# From one place in the input to the next

`Reception.Leads hG pieces r os r'` says that a reception comes from `r` to `r'` and reports `os` on
its way, where the buffers of `r` and `r'` stand for everything that is still ahead there, whether
it has been read or is yet to come with the last of `pieces`. Where the pieces are cut makes no
difference while a unit is being gathered (`leads_of_parse_inl`, `leads_of_parse_inr`) and while a
literal is being skipped (`leads_literal`).

It does make a difference while a line is being skipped, because a part of the line that comes
without its end is dropped: only what comes after the last cut in a line is looked at, to find out
whether a literal follows (`leads_line`).
-/

namespace MailProtocol

namespace Bytes

/-- Either all of `s` is there, and more, or something of `s` is still to come. -/
theorem whole_or_part {there coming s rest : Bytes} (h : there ++ coming = s ++ rest) :
    (∃ more, there = s ++ more ∧ more ++ coming = rest)
      ∨ ∃ more, more ≠ [] ∧ s = there ++ more ∧ coming = more ++ rest := by
  rcases List.append_eq_append_iff.1 h with ⟨more, hs, hcoming⟩ | ⟨more, hthere, hrest⟩
  · by_cases hmore : more = []
    · subst hmore
      exact .inl ⟨[], by rw [hs, List.append_nil, List.append_nil], hcoming⟩
    · exact .inr ⟨more, hmore, hs, hcoming⟩
  · exact .inl ⟨more, hthere, hrest.symm⟩

/-- A proper front of a line is no line. -/
theorem splitLine?_of_append {front more : Bytes} (h : (front ++ more).IsLine) (hne : more ≠ []) :
    front.splitLine? = none := by
  rcases hsplit : front.splitLine? with _ | ⟨line, rest⟩
  · rfl
  · have hline := splitLine?_line h []
    rw [List.append_nil, splitLine?_append hsplit more] at hline
    obtain ⟨-, hnil⟩ := Prod.mk.inj (Option.some.inj hline)
    exact absurd (List.append_eq_nil_iff.1 hnil).2 hne

/-- The end of a line is one itself. -/
theorem IsLine.of_suffix {l s : Bytes} (hl : l.IsLine) (hs : s <:+ l) (hne : s ≠ []) :
    s.IsLine := by
  obtain ⟨content, hcontent, rfl⟩ := hl
  obtain ⟨front, hfront⟩ := hs
  obtain ⟨s, b, rfl⟩ := List.eq_nil_or_concat s |>.resolve_left hne
  rw [List.concat_eq_append, ← List.append_assoc] at hfront
  obtain ⟨rfl, hb⟩ := List.append_inj' hfront rfl
  rw [List.concat_eq_append, hb]
  exact ⟨s, fun hmem => hcontent (List.mem_append_right front hmem), rfl⟩

end Bytes

variable {γ υ : Type} {G : Grammar γ υ}

namespace Reception

/-- However many of the bytes ahead have been read, a reception at `r` comes to `r'` and reports
`os` on its way. The bytes ahead are in the buffers of `r` and `r'`. -/
def Leads (hG : G.Lawful) (pieces : List Bytes) (r : Reception γ) (os : List (Reported υ))
    (r' : Reception γ) : Prop :=
  ∀ there coming, coming <:+ pieces → there ++ coming.flatten = r.buffer →
    ∃ there' coming', coming' <:+ pieces ∧ there' ++ coming'.flatten = r'.buffer
      ∧ feed hG { r with buffer := there } coming
        = os ++ feed hG { r' with buffer := there' } coming'

namespace Leads

variable {hG : G.Lawful} {pieces : List Bytes} {r r' r'' : Reception γ} {os os' : List (Reported υ)}

theorem refl (hG : G.Lawful) (pieces : List Bytes) (r : Reception γ) : Leads hG pieces r [] r :=
  fun there coming hcoming hthere => ⟨there, coming, hcoming, hthere, rfl⟩

theorem trans (h : Leads hG pieces r os r') (h' : Leads hG pieces r' os' r'') :
    Leads hG pieces r (os ++ os') r'' := by
  intro there coming hcoming hthere
  obtain ⟨there', coming', hcoming', hthere', hfeed⟩ := h there coming hcoming hthere
  obtain ⟨there'', coming'', hcoming'', hthere'', hfeed'⟩ := h' there' coming' hcoming' hthere'
  exact ⟨there'', coming'', hcoming'', hthere'', by rw [hfeed, hfeed', List.append_assoc]⟩

end Leads

/-- At the end of the input all has been reported. -/
theorem Leads.feed_eq {hG : G.Lawful} {pieces : List Bytes} {os : List (Reported υ)}
    {state state' : γ} {bytes : Bytes} {required : Nat}
    (h : Leads hG pieces ⟨state, .empty, pieces.flatten⟩ os
      ⟨state', .gathering bytes required, []⟩) :
    feed hG { state, buffer := [] } pieces = os := by
  obtain ⟨there', coming', hcoming', hthere', hfeed⟩ := h [] pieces List.suffix_rfl rfl
  rw [List.append_eq_nil_iff] at hthere'
  rw [hfeed, hthere'.1, feed_nothing hG state' bytes required hthere'.2, List.append_nil]

/-! ## Gathering -/

section
variable {bytes piece rest : Bytes} {required : Nat} {state : γ}

/-- As long as what is to be taken is not there as a whole, more bytes are needed. -/
theorem advance_of_short (state : γ) {there more : Bytes} (hne : more ≠ [])
    (htakes : Takes G.maxLineLength bytes required (there ++ more)) :
    ∃ n, advance G ⟨state, .gathering bytes required, there⟩
      = (.ok (.needMore n), ⟨state, .gathering bytes required, there⟩) := by
  have hlen : there.length < (there ++ more).length := by
    rw [List.length_append]
    exact Nat.lt_add_of_pos_right (List.length_pos_iff.2 hne)
  cases htakes with
  | literal hwait hlength => exact ⟨_, advance_of_report (step_literal_short hwait (by omega))⟩
  | line hwait hline hfit =>
    have hnone := Bytes.splitLine?_of_append hline hne
    exact ⟨1, advance_of_report (step_line_short hwait hnone (by omega))⟩

/-- What is to be taken has come at some point. -/
theorem exists_feed_eq (hG : G.Lawful) (state : γ)
    (htakes : Takes G.maxLineLength bytes required piece) {there : Bytes} {coming : List Bytes}
    (h : there ++ coming.flatten = piece ++ rest) :
    ∃ there' coming', coming' <:+ coming ∧ there' ++ coming'.flatten = rest
      ∧ feed hG ⟨state, .gathering bytes required, there⟩ coming
        = feed hG ⟨state, .gathering bytes required, piece ++ there'⟩ coming' := by
  induction coming generalizing there with
  | nil =>
    rw [List.flatten_nil, List.append_nil] at h
    exact ⟨rest, [], List.suffix_rfl, by simp, by rw [h]⟩
  | cons next coming ih =>
    rcases Bytes.whole_or_part h with ⟨there', rfl, hrest⟩ | ⟨more, hne, rfl, -⟩
    · exact ⟨there', _, List.suffix_rfl, hrest, rfl⟩
    · obtain ⟨n, hadv⟩ := advance_of_short state hne htakes
      rw [List.flatten_cons, ← List.append_assoc] at h
      obtain ⟨there', coming', hcoming', hthere', hfeed⟩ := ih h
      refine ⟨there', coming', hcoming'.trans (List.suffix_cons _ _), hthere', ?_⟩
      rw [feed_of_needMore_cons hG hadv, ← hfeed]
      rfl

/-- What is taken is taken however it comes, and the grammar is asked. -/
theorem leads_of_parse_inl (hG : G.Lawful) (pieces : List Bytes) (rest : Bytes) {state' : γ}
    {f : Fragment} (htakes : Takes G.maxLineLength bytes required piece)
    (hparse : ∀ buffer, parse G state buffer (bytes ++ piece) required = .inl ⟨state', f, buffer⟩) :
    Leads hG pieces ⟨state, .gathering bytes required, piece ++ rest⟩ [] ⟨state', f, rest⟩ := by
  intro there coming hcoming hthere
  obtain ⟨there', coming', hcoming', hthere', hfeed⟩ := exists_feed_eq hG state htakes hthere
  have hstep := step_of_takes htakes state there'
  rw [hparse] at hstep
  refine ⟨there', coming', hcoming'.trans hcoming, hthere', hfeed.trans ?_⟩
  rw [List.nil_append]
  exact feed_congr hG (advance_of_step hstep) coming'

/-- So is what the grammar reports something about. -/
theorem leads_of_parse_inr (hG : G.Lawful) (pieces : List Bytes) (rest : Bytes) {state' : γ}
    {f : Fragment} {o : Reported υ} (htakes : Takes G.maxLineLength bytes required piece)
    (hparse : ∀ buffer, parse G state buffer (bytes ++ piece) required
      = .inr (o, ⟨state', f, buffer⟩)) :
    Leads hG pieces ⟨state, .gathering bytes required, piece ++ rest⟩ [o] ⟨state', f, rest⟩ := by
  intro there coming hcoming hthere
  obtain ⟨there', coming', hcoming', hthere', hfeed⟩ := exists_feed_eq hG state htakes hthere
  have hstep := step_of_takes htakes state there'
  rw [hparse] at hstep
  have ho (n : Nat) : o ≠ .ok (.needMore n) := by
    rintro rfl
    exact parse_ne_needMore (hparse [])
  exact ⟨there', coming', hcoming'.trans hcoming, hthere',
    hfeed.trans (feed_of_report hG (advance_of_report hstep) ho coming')⟩

end

/-! ## Skipping -/

/-- The data of a literal are skipped, wherever they are cut. -/
theorem leads_literal (hG : G.Lawful) (pieces : List Bytes) (state : γ) (data rest : Bytes) :
    Leads hG pieces ⟨state, .discarding (.literal data.length), data ++ rest⟩ []
      ⟨state, .discarding .line, rest⟩ := by
  intro there coming hcoming hthere
  show ∃ there' coming', coming' <:+ pieces ∧ there' ++ coming'.flatten = rest
    ∧ feed hG ⟨state, .discarding (.literal data.length), there⟩ coming
      = feed hG ⟨state, .discarding .line, there'⟩ coming'
  change there ++ coming.flatten = data ++ rest at hthere
  induction coming generalizing there data with
  | nil =>
    rw [List.flatten_nil, List.append_nil] at hthere
    subst hthere
    exact ⟨rest, [], List.nil_suffix, List.append_nil rest,
      feed_congr hG (advance_of_step (step_skip_literal state data rest)) []⟩
  | cons next coming ih =>
    rcases Bytes.whole_or_part hthere with ⟨there, rfl, hrest⟩ | ⟨data, hne, rfl, hnext⟩
    · exact ⟨there, _, hcoming, hrest,
        feed_congr hG (advance_of_step (step_skip_literal state data there)) _⟩
    · have hlen : (there ++ data).length = there.length + data.length := List.length_append
      have hpos := List.length_pos_iff.2 hne
      have hshort : there.length < (there ++ data).length := by omega
      have hstep := step_skip_literal_short (G := G) state hshort
      rw [hlen, Nat.add_sub_cancel_left] at hstep
      rw [hlen, feed_of_needMore_cons hG (advance_of_report hstep)]
      exact ih data next ((List.suffix_cons _ _).trans hcoming) hnext

/-- A cut in a line that is being skipped hides what comes before it. If no cut changes what the
line announces, then that is skipped next. -/
theorem leads_line (hG : G.Lawful) (pieces : List Bytes) (next : Option Nat) {state : γ}
    {line rest : Bytes} (hline : line.IsLine)
    (hnext : ∀ l : Bytes, l <:+ line → l ≠ [] →
      l = line ∨ (∃ later, later <:+ pieces ∧ later.flatten = l ++ rest) →
      G.literalToDiscard state (Bytes.trimLineEnding l) = next) :
    Leads hG pieces ⟨state, .discarding .line, line ++ rest⟩ []
      ⟨state, next.elim .empty fun n => .discarding (.literal n), rest⟩ := by
  intro there coming hcoming hthere
  show ∃ there' coming', coming' <:+ pieces ∧ there' ++ coming'.flatten = rest
    ∧ feed hG ⟨state, .discarding .line, there⟩ coming
      = feed hG ⟨state, next.elim .empty fun n => .discarding (.literal n), there'⟩ coming'
  change there ++ coming.flatten = line ++ rest at hthere
  -- the whole line is there
  have hwhole (line : Bytes) (hline : line.IsLine) (there : Bytes)
      (hhere : G.literalToDiscard state line.trimLineEnding = next) :
      advance G ⟨state, .discarding .line, line ++ there⟩
        = advance G ⟨state, next.elim .empty fun n => .discarding (.literal n), there⟩ := by
    rw [← hhere]
    exact advance_of_step (step_skip_line state hline there)
  induction coming generalizing there line with
  | nil =>
    rw [List.flatten_nil, List.append_nil] at hthere
    subst hthere
    have hadv := hwhole line hline rest (hnext line List.suffix_rfl hline.ne_nil (.inl rfl))
    exact ⟨rest, [], List.nil_suffix, List.append_nil rest, feed_congr hG hadv []⟩
  | cons piece coming ih =>
    rcases Bytes.whole_or_part hthere with ⟨there, rfl, hrest⟩ | ⟨line, hne, rfl, hpiece⟩
    · have hadv := hwhole line hline there (hnext line List.suffix_rfl hline.ne_nil (.inl rfl))
      exact ⟨there, _, hcoming, hrest, feed_congr hG hadv _⟩
    · -- what is there is dropped, and the line goes on with the next piece
      have hstep := step_skip_line_short (G := G) state
        (Bytes.splitLine?_of_append hline hne)
      rw [feed_of_needMore_cons hG (advance_of_report hstep)]
      have hsuffix := List.suffix_append there line
      refine ih (hline.of_suffix hsuffix hne) (fun l hl hl' hcut => ?_) piece
        ((List.suffix_cons _ _).trans hcoming) hpiece
      refine hnext l (hl.trans hsuffix) hl' (.inr ?_)
      rcases hcut with rfl | hcut
      · exact ⟨_, hcoming, hpiece⟩
      · exact hcut

end Reception

end MailProtocol
