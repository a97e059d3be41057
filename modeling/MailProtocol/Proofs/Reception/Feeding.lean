import MailProtocol.Proofs.Reception.Gathering

/-!
# Feeding a reception

`Reception.feed` is the loop around a receiver without the stream: the pieces that reading brings
are given, and one of them is taken whenever more bytes are needed. A receiver that is pumped over a
stream reports just that (`map_fst_pump`).

The loop can be cut anywhere. `Reception.Reaches r pieces os r'` says that a reception `r` that is
fed `pieces` has reported `os` by the time it stands at `r'`, whatever pieces come later. If nothing
is refused, then the pieces give the reports that come with everything there (`feed_eq_trace`).
-/

namespace MailProtocol

variable {γ υ : Type} {G : Grammar γ υ}

/-- What a receiver reports. -/
abbrev Reported (υ : Type) := Except Malformed (Outcome υ)

namespace Reported

/-- The unit or the refusal that is reported. -/
def result? : Reported υ → Option (Except Malformed υ)
  | .ok (.complete unit) => some (.ok unit)
  | .ok (.needMore _) | .ok (.continuing _ _) => none
  | .error report => some (.error report)

/-- A literal is announced that the peer waits to be asked for. -/
def asks : Reported υ → Bool
  | .ok (.continuing _ goAhead) => goAhead
  | .ok (.complete _) | .ok (.needMore _) | .error _ => false

/-- The units and refusals that are reported. -/
def results (os : List (Reported υ)) : List (Except Malformed υ) := os.filterMap result?

/-- For each literal that the peer waits to be asked for, how many units and refusals come before
it, if so many come before all of these reports. -/
def dues (before : Nat) : List (Reported υ) → List Nat
  | [] => []
  | o :: os => (if o.asks then [before] else []) ++ dues (before + o.result?.toList.length) os

theorem results_append (os os' : List (Reported υ)) :
    results (os ++ os') = results os ++ results os' := List.filterMap_append

theorem results_cons (o : Reported υ) (os : List (Reported υ)) :
    results (o :: os) = o.result?.toList ++ results os := by
  rw [results, List.filterMap_cons]
  cases o.result? <;> rfl

theorem dues_append (before : Nat) (os os' : List (Reported υ)) :
    dues before (os ++ os') = dues before os ++ dues (before + (results os).length) os' := by
  induction os generalizing before with
  | nil => rfl
  | cons o os ih =>
    rw [List.cons_append, dues, ih, dues, results_cons, List.length_append, Nat.add_assoc,
      List.append_assoc]

/-- The reports without the bytes ahead hold the same results. -/
theorem results_map_fst (ds : List (Delivery υ)) :
    results (ds.map Prod.fst) = (Delivery.results ds).map Prod.fst := by
  induction ds with
  | nil => rfl
  | cons d ds ih =>
    obtain ⟨report | ⟨unit⟩ | _ | _, ahead⟩ := d
    all_goals
      rw [List.map_cons, results_cons, ih]
      rfl

end Reported

/-- If all results are units, then nothing is refused. -/
theorem Delivery.isOk_of_results {ds : List (Delivery υ)} {units : List υ}
    (h : (results ds).map Prod.fst = units.map .ok) : ∀ d ∈ ds, d.1.isOk := by
  rintro ⟨report | outcome, ahead⟩ hd
  · have hmem : (.error report, ahead) ∈ results ds := List.mem_filterMap.2 ⟨_, hd, rfl⟩
    have hunit := List.mem_map_of_mem (f := Prod.fst) hmem
    rw [h] at hunit
    obtain ⟨unit, -, hunit⟩ := List.mem_map.1 hunit
    cases hunit
  · rfl

namespace Reception

/-! ## One piece at a time -/

/-- The reports of a reception that takes one of these pieces whenever more bytes are needed. -/
def feed (hG : G.Lawful) (r : Reception γ) (pieces : List Bytes) : List (Reported υ) :=
  match _h : advance G r with
  | (.ok (.needMore _), r') =>
    match pieces with
    | [] => []
    | piece :: pieces => feed hG (r'.extend piece) pieces
  | (.ok (.complete unit), r') => .ok (.complete unit) :: feed hG r' pieces
  | (.ok (.continuing missing goAhead), r') =>
    .ok (.continuing missing goAhead) :: feed hG r' pieces
  | (.error report, r') => .error report :: feed hG r' pieces
termination_by (pieces.length, r.total, r.size)
decreasing_by
  all_goals
    have hs := shrinks_advance (G := G) r
    rw [_h] at hs
  · exact Prod.Lex.left _ _ (Nat.lt_succ_self _)
  · exact Prod.Lex.right _ (Prod.Lex.left _ _ (hs hG))
  · rcases Nat.lt_or_eq_of_le hs.2 with hlt | heq
    · exact Prod.Lex.right _ (Prod.Lex.left _ _ hlt)
    · exact Prod.Lex.right _ (heq ▸ Prod.Lex.right _ hs.1)
  · exact Prod.Lex.right _ (Prod.Lex.left _ _ hs)

section
variable (hG : G.Lawful) {r r' : Reception γ} {n : Nat}

theorem feed_of_needMore_nil (h : advance G r = (.ok (.needMore n), r')) : feed hG r [] = [] := by
  rw [feed]
  split <;> simp_all

theorem feed_of_needMore_cons (h : advance G r = (.ok (.needMore n), r')) (piece : Bytes)
    (pieces : List Bytes) : feed hG r (piece :: pieces) = feed hG (r'.extend piece) pieces := by
  rw [feed]
  split <;> simp_all

/-- A report that is not about missing bytes comes first. -/
theorem feed_of_report {o : Reported υ} (h : advance G r = (o, r'))
    (ho : ∀ n, o ≠ .ok (.needMore n)) (pieces : List Bytes) :
    feed hG r pieces = o :: feed hG r' pieces := by
  rw [feed]
  split
  · next heq =>
    rw [h] at heq
    exact absurd (Prod.mk.inj heq).1 (ho _)
  all_goals simp_all

/-- What is reported next decides all reports. -/
theorem feed_congr {s : Reception γ} (h : advance G r = advance G s) (pieces : List Bytes) :
    feed hG r pieces = feed hG s pieces := by
  rcases hadv : advance G s with ⟨o, s'⟩
  rw [hadv] at h
  by_cases ho : ∃ n, o = .ok (.needMore n)
  · obtain ⟨n, rfl⟩ := ho
    cases pieces with
    | nil => rw [feed_of_needMore_nil hG h, feed_of_needMore_nil hG hadv]
    | cons piece pieces =>
      rw [feed_of_needMore_cons hG h, feed_of_needMore_cons hG hadv]
  · have ho' : ∀ n, o ≠ .ok (.needMore n) := fun n hn => ho ⟨n, hn⟩
    rw [feed_of_report hG h ho', feed_of_report hG hadv ho']

end

/-- Where more bytes are needed, asking again changes nothing. -/
theorem advance_of_needMore {r r' : Reception γ} {n : Nat}
    (h : advance G r = (.ok (.needMore n), r')) : advance G r' = (.ok (.needMore n), r') := by
  -- the last step is the one that found too few bytes
  have hlast : ∀ n r', advance G r = (.ok (.needMore n), r') →
      step G r' = .inr (.ok (.needMore n), r') := by
    refine iterate_induction (P := fun _ => True) (Q := fun b : Report γ υ => ∀ n r',
      b = (.ok (.needMore n), r') → step G r' = .inr (.ok (.needMore n), r')) ?_ ?_ r trivial
    · exact fun _ _ _ _ => trivial
    · rintro a b - hstep n r' rfl
      exact step_of_needMore hstep
  exact advance_of_report (hlast n r' h)

/-- Nothing is reported when no more bytes come. -/
theorem feed_nothing (hG : G.Lawful) (state : γ) (bytes : Bytes) (required : Nat)
    {coming : List Bytes} (h : coming.flatten = []) :
    feed hG ⟨state, .gathering bytes required, []⟩ coming = [] := by
  obtain ⟨n, hadv⟩ : ∃ n, advance G ⟨state, .gathering bytes required, []⟩
      = (.ok (.needMore n), ⟨state, .gathering bytes required, []⟩) := by
    by_cases hwait : bytes.length < required
    · have hmissing : ([] : Bytes).length < required - bytes.length := Nat.sub_pos_of_lt hwait
      exact ⟨_, advance_of_report (step_literal_short hwait hmissing)⟩
    · exact ⟨1, advance_of_report
        (step_line_short (Nat.le_of_not_lt hwait) rfl (Nat.zero_le _))⟩
  induction coming with
  | nil => exact feed_of_needMore_nil hG hadv
  | cons piece coming ih =>
    obtain ⟨rfl, hcoming⟩ := List.append_eq_nil_iff.1 h
    rw [feed_of_needMore_cons hG hadv]
    exact ih hcoming

/-! ## A reception on its way -/

/-- Fed `pieces`, the reception `r` has reported `os` when it stands at `r'`, and goes on from there
with the pieces that come later. -/
def Reaches (hG : G.Lawful) (r : Reception γ) (pieces : List Bytes) (os : List (Reported υ))
    (r' : Reception γ) : Prop :=
  ∀ later, feed hG r (pieces ++ later) = os ++ feed hG r' later

namespace Reaches

variable {hG : G.Lawful} {r r' r'' : Reception γ} {pieces pieces' : List Bytes}
  {os os' : List (Reported υ)}

theorem refl (hG : G.Lawful) (r : Reception γ) : Reaches hG r [] [] r := fun _ => rfl

theorem trans (h : Reaches hG r pieces os r') (h' : Reaches hG r' pieces' os' r'') :
    Reaches hG r (pieces ++ pieces') (os ++ os') r'' := by
  intro later
  rw [List.append_assoc, h, h', List.append_assoc]

/-- A report that is not about missing bytes. -/
theorem of_report {o : Reported υ} (h : advance G r = (o, r')) (ho : ∀ n, o ≠ .ok (.needMore n)) :
    Reaches hG r [] [o] r' := fun later => feed_of_report hG h ho later

/-- More bytes are needed, and a piece comes. -/
theorem of_piece {n : Nat} (h : advance G r = (.ok (.needMore n), r')) (piece : Bytes) :
    Reaches hG r [piece] [] (r'.extend piece) := fun later => feed_of_needMore_cons hG h piece later

/-- More bytes are needed, and none come. -/
theorem of_needMore {n : Nat} (h : advance G r = (.ok (.needMore n), r')) :
    Reaches hG r [] [] r' := by
  have hagain := advance_of_needMore h
  rintro (_ | ⟨piece, later⟩)
  · exact (feed_of_needMore_nil hG h).trans (feed_of_needMore_nil hG hagain).symm
  · exact (feed_of_needMore_cons hG h piece later).trans
      (feed_of_needMore_cons hG hagain piece later).symm

/-- A reception that needs more bytes has reported all that these pieces give. -/
theorem feed_eq {n : Nat} (h : Reaches hG r pieces os r')
    (hneed : advance G r' = (.ok (.needMore n), r'')) : feed hG r pieces = os := by
  have := h []
  rwa [List.append_nil, feed_of_needMore_nil hG hneed, List.append_nil] at this

/-- What has been reported comes first among all that these pieces give. -/
theorem prefix_feed (h : Reaches hG r pieces os r') (later : List Bytes) :
    os <+: feed hG r (pieces ++ later) := ⟨_, (h later).symm⟩

end Reaches

/-! ## Pieces and all at once -/

/-- If nothing is refused with everything there, then the pieces give the same reports. -/
theorem feed_eq_trace (hG : G.Lawful) {r : Reception γ} (hr : r.fragment.isKept)
    {pieces : List Bytes} (hok : ∀ d ∈ trace hG (r.extend pieces.flatten), d.1.isOk) :
    feed hG r pieces = (trace hG (r.extend pieces.flatten)).map Prod.fst := by
  fun_induction feed hG r pieces with
  | case1 r n r' hadv =>
    have hnone : r.extend [].flatten = r := by simp [extend]
    rw [hnone, trace_of_needMore hG hadv]
    rfl
  | case2 r n r' hadv piece pieces ih =>
    -- what comes counts as if it had been there from the beginning
    have hext : r'.extend (piece :: pieces).flatten = (r'.extend piece).extend pieces.flatten := by
      simp only [extend, List.flatten_cons, List.append_assoc]
    have htrace := trace_congr hG (advance_extend_needMore hr hadv (piece :: pieces).flatten)
    rw [hext] at htrace
    have hr' : r'.fragment.isKept := isKept_of_advance hr hadv
    rw [htrace] at hok ⊢
    exact ih hr' hok
  | case3 r pieces unit r' hadv ih =>
    have htrace := trace_of_complete hG (advance_extend_ok hr hadv (by simp) pieces.flatten)
    rw [htrace, List.forall_mem_cons] at hok
    rw [htrace, List.map_cons, ih (isKept_of_advance hr hadv) hok.2]
  | case4 r pieces missing goAhead r' hadv ih =>
    have htrace := trace_of_continuing hG (advance_extend_ok hr hadv (by simp) pieces.flatten)
    rw [htrace, List.forall_mem_cons] at hok
    rw [htrace, List.map_cons, ih (isKept_of_advance hr hadv) hok.2]
  | case5 r pieces report r' hadv ih =>
    obtain ⟨n, r'', hmore, -⟩ := advance_extend_error hr hadv pieces.flatten
    rw [trace_of_error hG hmore, List.forall_mem_cons] at hok
    cases hok.1

end Reception

end MailProtocol
