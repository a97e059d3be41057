import MailProtocol.Proofs.Imap.Incremental
import MailProtocol.Proofs.Pop3.Framing
import MailProtocol.Proofs.Reception.Refusal
import MailProtocol.Proofs.Reception.Waiting

/-!
# Limits

A receiver holds no more input than its limits allow, whatever has come before and however the
grammar has been used (`Grammar.StaysWithin`). Where it needs more bytes, it has left in the buffer
nothing that belongs to what it skips, less of a literal than is missing, and less of a line than
the longest line, so input that is not read cannot grow without bound.

What is gathered is put together from lines and literals that fit (`Grammar.WithinLimits`). A
fragment also passes through the grammar without being kept, when it completes a unit or is refused.
So it is said, too, that the receiver would not notice if the grammar took any other fragment
differently: it is never asked about one.

All this needs three things of a grammar (`Grammar.ObeysLimits`): it has the line limit, it asks for
no literal beyond its limit, and a unit that is complete with the piece taken last leaves nothing
over.
-/

namespace MailProtocol

variable {γ υ : Type} {G : Grammar γ υ} {limits : Limits}

/-- The bytes are lines that are not too long, and data of literals that are not too long and that
the grammar has asked for where they stand. -/
inductive Grammar.WithinLimits (G : Grammar γ υ) (limits : Limits) : Bytes → Prop
  | nil : WithinLimits G limits []
  | line {p line : Bytes} (hp : WithinLimits G limits p) (hline : line.IsLine)
    (hfit : line.length ≤ limits.maxLineLength) : WithinLimits G limits (p ++ line)
  | literal {p data : Bytes} {g : γ} {synchronising : Bool} (hp : WithinLimits G limits p)
    (hmark : (G.parse g p).2 = .ok (.incomplete (.literal data.length synchronising)))
    (hfit : data.length ≤ limits.maxLiteralLength) : WithinLimits G limits (p ++ data)

/-- What a grammar must do to keep a receiver within the limits. -/
structure Grammar.ObeysLimits (G : Grammar γ υ) (limits : Limits) : Prop where
  line : G.maxLineLength = limits.maxLineLength
  literal : ∀ {g : γ} {p : Bytes} {n : Nat} {synchronising : Bool},
    (G.parse g p).2 = .ok (.incomplete (.literal n synchronising)) → n ≤ limits.maxLiteralLength
  whole : ∀ {p piece rest : Bytes} {required : Nat} {g : γ} {unit : υ},
    Reception.Awaits G p required → Reception.Takes G.maxLineLength p required piece →
    (G.parse g (p ++ piece)).2 = .ok (.complete unit rest) → rest = []

namespace Reception

/-! ## What is gathered fits -/

/-- What has been gathered fits, or input is being skipped. -/
inductive Bounded (G : Grammar γ υ) (limits : Limits) : Fragment → Prop
  | gathering {p : Bytes} {required : Nat} (hp : Awaits G p required)
    (hfit : G.WithinLimits limits p) : Bounded G limits (.gathering p required)
  | discarding (what : Discard) : Bounded G limits (.discarding what)

theorem bounded_empty (G : Grammar γ υ) (limits : Limits) : Bounded G limits .empty :=
  .gathering ⟨.inl rfl, fun hlt => absurd hlt (Nat.lt_irrefl 0)⟩ .nil

theorem bounded_recovery (G : Grammar γ υ) (limits : Limits) (g : γ) (raw : Bytes) :
    Bounded G limits (recovery G g raw) := by
  rw [recovery]
  split
  · exact .discarding _
  · exact bounded_empty G limits

/-- What a fragment takes fits. -/
theorem Takes.withinLimits (hG : G.ObeysLimits limits) {p piece : Bytes} {required : Nat}
    (h : Takes G.maxLineLength p required piece) (hp : Awaits G p required)
    (hfit : G.WithinLimits limits p) : G.WithinLimits limits (p ++ piece) := by
  cases h with
  | line hwait hline hlength => exact .line hfit hline (hG.line ▸ hlength)
  | literal hwait hlen =>
    obtain ⟨g, synchronising, hmark⟩ := hp.announced hwait
    rw [← hlen] at hmark
    exact .literal hfit hmark (hG.literal hmark)

/-- Asking the grammar after a piece has been taken leaves what fits. -/
theorem bounded_parse (hG : G.ObeysLimits limits) {p piece : Bytes} {required : Nat}
    (hp : Awaits G p required) (hfit : G.WithinLimits limits p)
    (hpiece : Takes G.maxLineLength p required piece) (g : γ) (rest : Bytes) :
    Bounded G limits (reached (parse G g rest (p ++ piece) required)).fragment := by
  have hmore := hpiece.withinLimits hG hp hfit
  have hasked := asked_parse G g rest (p ++ piece) required
  generalize parse G g rest (p ++ piece) required = b at hasked
  cases hasked with
  | complete hparse =>
    obtain rfl := hG.whole hp hpiece (congrArg Prod.snd hparse)
    exact bounded_empty G limits
  | incomplete hparse => exact .gathering (.of_incomplete hparse hpiece.le_length) hmore
  | announced hparse => exact .gathering (.of_announced hparse) hmore
  | refused => exact bounded_recovery G limits _ _

/-- A step leaves what fits. -/
theorem bounded_step (hG : G.ObeysLimits limits) {r : Reception γ}
    (h : Bounded G limits r.fragment) : Bounded G limits (reached (step G r)).fragment := by
  obtain ⟨g, fragment, buffer⟩ := r
  cases h with
  | @gathering p required hp hfit =>
    have hcases := gatheringStep_step G g p required buffer
    generalize step G ⟨g, .gathering p required, buffer⟩ = b at hcases
    cases hcases with
    | takes _ hpiece => exact bounded_parse hG hp hfit hpiece g _
    | needMore n => exact .gathering hp hfit
    | long => exact bounded_recovery G limits g _
    | overflow => exact .discarding .line
  | discarding what =>
    rcases step_skip_cases (G := G) g what buffer with
      ⟨f, rest, hstep, rfl | ⟨what', rfl⟩⟩ | ⟨n, what', hstep⟩
    all_goals rw [hstep]
    · exact bounded_empty G limits
    · exact .discarding what'
    · exact .discarding what'

/-- So it is after a report. -/
theorem bounded_advance (hG : G.ObeysLimits limits) {r : Reception γ}
    (h : Bounded G limits r.fragment) : Bounded G limits (advance G r).2.fragment := by
  refine iterate_induction (P := fun a => Bounded G limits a.fragment)
    (Q := fun b : Report γ υ => Bounded G limits b.2.fragment) ?_ ?_ r h
  · intro a a' ha hstep
    have hnext := bounded_step hG ha
    rwa [hstep] at hnext
  · intro a b ha hstep
    have hnext := bounded_step hG ha
    rwa [hstep] at hnext

/-! ## What the grammar is asked about fits -/

section
variable {other : γ → Bytes → γ × Except Malformed (Parsed υ)}

theorem parse_congr {g : γ} {bytes : Bytes} (h : other g bytes = G.parse g bytes) (buffer : Bytes)
    (required : Nat) :
    parse { G with parse := other } g buffer bytes required = parse G g buffer bytes required := by
  unfold parse
  simp only [h]
  rfl

/-- A step is the same with a grammar that takes the same fragments within the limits. -/
theorem step_congr (hG : G.ObeysLimits limits)
    (hother : ∀ g p, G.WithinLimits limits p → other g p = G.parse g p) {r : Reception γ}
    (h : Bounded G limits r.fragment) : step { G with parse := other } r = step G r := by
  obtain ⟨g, fragment, buffer⟩ := r
  cases h with
  | discarding what => cases what <;> rfl
  | @gathering p required hp hfit =>
    have hasked {piece : Bytes} (hpiece : Takes G.maxLineLength p required piece) :
        other g (p ++ piece) = G.parse g (p ++ piece) :=
      hother g _ (hpiece.withinLimits hG hp hfit)
    simp only [step]
    split
    · next hwait =>
      split
      · next hthere =>
        exact parse_congr (hasked (.literal hwait (List.length_take_of_le hthere))) _ _
      · rfl
    · next hwait =>
      split
      · next line rest hline =>
        have hisLine := (Bytes.splitLine?_eq_some_iff.1 hline).1
        split
        · rfl
        · next hlong =>
          exact parse_congr (hasked (.line (Nat.le_of_not_lt hwait) hisLine
            (Nat.le_of_not_lt hlong))) _ _
      · rfl

/-- So is what is reported. -/
theorem advance_congr (hG : G.ObeysLimits limits)
    (hother : ∀ g p, G.WithinLimits limits p → other g p = G.parse g p) {r : Reception γ}
    (h : Bounded G limits r.fragment) : advance { G with parse := other } r = advance G r := by
  refine iterate_induction
    (P := fun a => Bounded G limits a.fragment
      ∧ advance { G with parse := other } r = advance { G with parse := other } a)
    (Q := fun b : Report γ υ => advance { G with parse := other } r = b) ?_ ?_ r ⟨h, rfl⟩
  · rintro a a' ⟨ha, heq⟩ hstep
    have hnext := bounded_step hG ha
    rw [hstep] at hnext
    have hsame := step_congr hG hother ha
    rw [hstep] at hsame
    exact ⟨hnext, heq.trans (advance_of_step hsame)⟩
  · rintro a b ⟨ha, heq⟩ hstep
    have hsame := step_congr hG hother ha
    rw [hstep] at hsame
    exact heq.trans (advance_of_report hsame)

end

end Reception

/-! ## Receivers -/

/-- What may be left in the buffer where more bytes are needed. -/
def Fragment.Leaves (limits : Limits) (buffer : Bytes) : Fragment → Prop
  | .discarding _ => buffer = []
  | .leftover _ => False
  | .gathering p required =>
    if p.length < required then
      buffer.length < required - p.length ∧ required - p.length ≤ limits.maxLiteralLength
    else Byte.lf ∉ buffer ∧ buffer.length ≤ limits.maxLineLength

/-- The receiver has come about by receiving from transports, whatever they held, and by the other
ways in which a connection uses it. -/
inductive Receiver.Reached (G : Grammar γ υ) : Receiver γ → Prop
  | start (g : γ) : Reached G { state := g }
  | receive {r : Receiver γ} (h : Reached G r) (t : Transport) : Reached G (r.receive G t).2.1
  | reset {r : Receiver γ} (h : Reached G r) : Reached G (r.reset G)
  | setState {r : Receiver γ} (h : Reached G r) (f : γ → γ) :
    Reached G { r with state := f r.state }

/-- A receiver of the grammar stays within the limits. -/
structure Grammar.StaysWithin (G : Grammar γ υ) (limits : Limits) : Prop where
  /-- Where more bytes are needed, little is left in the buffer. -/
  leaves : ∀ {r r' : Receiver γ} {t t' : Transport} {n : Nat}, Receiver.Reached G r →
    r.receive G t = (.ok (.needMore n), r', t') → r'.fragment.Leaves limits t'.buffer
  /-- What has been gathered fits. -/
  gathered : ∀ {r : Receiver γ}, Receiver.Reached G r → G.WithinLimits limits r.fragment.bytes
  /-- So does all that the grammar is asked about. -/
  asked : ∀ {r : Receiver γ} {t : Transport} {other : γ → Bytes → γ × Except Malformed (Parsed υ)},
    Receiver.Reached G r → (∀ g p, G.WithinLimits limits p → other g p = G.parse g p) →
      r.receive { G with parse := other } t = r.receive G t

theorem Receiver.Reached.bounded (hG : G.ObeysLimits limits) {r : Receiver γ}
    (h : Receiver.Reached G r) : Reception.Bounded G limits r.fragment := by
  induction h with
  | start | reset => exact Reception.bounded_empty G limits
  | @receive r _ t ih => exact Reception.bounded_advance (r := r.reception t) hG ih
  | setState _ _ ih => exact ih

/-- Where a step finds too few bytes, little is left in the buffer. -/
theorem Reception.Wanting.leaves (hG : G.ObeysLimits limits) {r r' : Reception γ} {n : Nat}
    (h : Reception.Wanting G r n r') (hr : Reception.Bounded G limits r.fragment) :
    r'.fragment.Leaves limits r'.buffer := by
  cases h with
  | literal hshort =>
    obtain ⟨hp, -⟩ := hr
    have hwait := Nat.lt_of_sub_pos (Nat.zero_lt_of_lt hshort)
    obtain ⟨g, synchronising, hmark⟩ := hp.announced hwait
    rw [Fragment.Leaves, if_pos hwait]
    exact ⟨hshort, hG.literal hmark⟩
  | line hwait hline hfit =>
    rw [Fragment.Leaves, if_neg (Nat.not_lt.2 hwait)]
    exact ⟨hline, hG.line ▸ hfit⟩
  | skippedLiteral | skippedLine => rfl

/-- A grammar that obeys the limits keeps its receivers within them. -/
theorem Grammar.ObeysLimits.staysWithin (hG : G.ObeysLimits limits) : G.StaysWithin limits where
  leaves {r r' t t' n} hr h := by
    obtain ⟨hadv, -⟩ := Receiver.advance_of_receive h
    have hbounded : Reception.Bounded G limits r'.fragment := by
      have hnext := Reception.bounded_advance (r := r.reception t) hG (hr.bounded hG)
      rwa [hadv] at hnext
    have hwanting := Reception.step_eq_needMore_iff.1 (Reception.Runs.of_needMore hadv).2
    exact hwanting.leaves hG hbounded
  gathered {r} hr := by
    have hbounded := hr.bounded hG
    obtain ⟨state, fragment⟩ := r
    cases hbounded with
    | gathering _ hfit => exact hfit
    | discarding what => exact .nil
  asked {r t other} hr hother := by
    rw [Receiver.receive, Reception.advance_congr (r := r.reception t) hG hother (hr.bounded hG)]
    rfl

/-! ## The grammars -/

theorem Grammar.Incremental.whole {literals : υ → List Bytes} (hinc : G.Incremental literals)
    (hG : G.Lawful) {p piece rest : Bytes} {required : Nat} {g : γ} {unit : υ}
    (hp : Reception.Awaits G p required)
    (hpiece : Reception.Takes G.maxLineLength p required piece)
    (h : (G.parse g (p ++ piece)).2 = .ok (.complete unit rest)) : rest = [] :=
  (hp.reads_of_takes hG hinc hpiece h).1

/-- A grammar that is never in want of more takes line by line. -/
theorem Grammar.LineLocal.obeysLimits (hG : G.LineLocal)
    (hline : G.maxLineLength = limits.maxLineLength)
    (hwhole : ∀ g p needs, (G.parse g p).2 ≠ .ok (.incomplete needs)) : G.ObeysLimits limits where
  line := hline
  literal h := absurd h (hwhole _ _ _)
  whole {p piece rest required g unit} hp hpiece h := by
    -- nothing has been gathered before the line, and no literal is waited for
    obtain rfl : p = [] := by
      rcases hp.incomplete with rfl | ⟨g', needs, hneeds⟩
      · rfl
      · exact absurd hneeds (hwhole _ _ _)
    cases hpiece with
    | literal hwait =>
      obtain ⟨g', synchronising, hmark⟩ := hp.announced hwait
      exact absurd hmark (hwhole _ _ _)
    | line _ hisLine =>
      rcases hG.whole g hisLine with ⟨unit', hparse⟩ | ⟨report, hparse⟩
      · cases hparse.symm.trans h
        rfl
      · cases hparse.symm.trans h

namespace Imap

/-- No literal is waited for that is longer than the limit. -/
theorem Scan.le_of_run_wanting {maxLiteral n waits : Nat} {nest : Nest} {s : Bytes}
    {synchronising : Bool}
    (h : run maxLiteral nest waits s = .ok (.incomplete (.literal n synchronising))) :
    n ≤ maxLiteral := by
  fun_induction run maxLiteral nest waits s with
  | case1 | case2 | case5 | case6 | case8 => simp at h
  | case3 nest waits b s needs hfirst =>
    obtain rfl := by simpa only [Except.ok.injEq, Scan.incomplete.injEq] using h
    obtain ⟨m, text, data, -, hfit, -, rfl, -⟩ := Lexeme.marker_of_first_wanting hfirst
    omega
  | case4 _ _ _ _ _ _ _ ih | case7 _ _ _ _ _ _ _ ih | case9 _ _ _ _ _ _ _ _ _ ih
  | case10 _ _ _ _ _ _ _ _ _ ih => exact ih h

theorem Command.obeysLimits_grammar (config : Config) :
    (Command.grammar config).ObeysLimits config.limits where
  line := rfl
  literal {g p n synchronising} h := by
    have hparse : Command.parse config.limits.maxLiteralLength p
      = .ok (.incomplete (.literal n synchronising)) := h
    obtain ⟨tag, uid, verb, text, after, hheading, hfollows, rfl⟩ := Command.heading_of_parse hparse
    cases hfollows with
    | crlf rest =>
      rw [Command.parse_heading_crlf hheading] at hparse
      cases hparse
    | space args =>
      rw [Command.parse_heading_space hheading] at hparse
      exact Scan.le_of_run_wanting (Command.of_ofScan_eq_incomplete hparse)
  whole := (Command.incremental_grammar config).whole (Command.lawful_grammar config)

theorem Response.obeysLimits_grammar (config : Config) :
    (Response.grammar config).ObeysLimits config.limits where
  line := rfl
  literal {g p n synchronising} h := by
    have hparse : (Response.parse config.limits.maxLiteralLength p).2
      = .ok (.incomplete (.literal n synchronising)) := h
    obtain ⟨after, -, -, hitems⟩ := Response.data_of_parse hparse
    exact Scan.le_of_run_wanting hitems
  whole := (Response.incremental_grammar config).whole (Response.lawful_grammar config)

end Imap

namespace Pop3

/-- A command is never in want of more. -/
theorem Command.parse_ne_incomplete (p : Bytes) (needs : Needs) :
    Command.parse p ≠ .ok (.incomplete needs) := by
  intro h
  unfold Command.parse at h
  split at h
  · cases h
  · simp only at h
    split at h <;> cases h

/-- Nor is a part of a response. -/
theorem Response.parse_ne_incomplete (g : Reading) (p : Bytes) (needs : Needs) :
    (Response.parse g p).2 ≠ .ok (.incomplete needs) := by
  intro h
  unfold Response.parse at h
  split at h
  · cases h
  · split at h <;> cases h

theorem Command.obeysLimits_grammar (config : Config) :
    (Command.grammar config).ObeysLimits config.limits :=
  (Command.lineLocal_grammar config).obeysLimits rfl fun _ => Command.parse_ne_incomplete

theorem Response.obeysLimits_grammar (config : Config) :
    (Response.grammar config).ObeysLimits config.limits :=
  (Response.lineLocal_grammar config).obeysLimits rfl Response.parse_ne_incomplete

end Pop3

/-- Receivers of IMAP commands and responses and of POP3 commands and responses stay within the
limits that are set, whatever streams bring and whatever has come before. -/
theorem staysWithin_grammars (config : Config) :
    (Imap.Command.grammar config).StaysWithin config.limits
    ∧ (Imap.Response.grammar config).StaysWithin config.limits
    ∧ (Pop3.Command.grammar config).StaysWithin config.limits
    ∧ (Pop3.Response.grammar config).StaysWithin config.limits :=
  ⟨(Imap.Command.obeysLimits_grammar config).staysWithin,
    (Imap.Response.obeysLimits_grammar config).staysWithin,
    (Pop3.Command.obeysLimits_grammar config).staysWithin,
    (Pop3.Response.obeysLimits_grammar config).staysWithin⟩

end MailProtocol
