import MailProtocol.Proofs.Imap.Resumption
import MailProtocol.Proofs.Reception.Slots

/-!
# The slots between calls

A grammar keeps pace with what arrives (`Grammar.Paced`) if it wants one more line just after the
data of an announced literal, and a unit that is complete leaves nothing over. With such a grammar a
reception comes to rest only with nothing gathered, after the announcement of a literal, when its
data have come, or while it skips something (`Reception.Rests`). `Reception.Pace` lists what one
step can do from there. So units end, and refusals are given, only with a line, and the slots of a
receiver keep a fixed relation to each other between calls (`Grammar.KeepsSlots`).
-/

namespace MailProtocol

variable {γ υ : Type} {G : Grammar γ υ}

/-- The grammar asks for just what must come next. -/
structure Grammar.Paced (G : Grammar γ υ) : Prop where
  whole : ∀ {p piece rest : Bytes} {required : Nat} {g : γ} {unit : υ},
    Reception.Awaits G p required → Reception.Takes G.maxLineLength p required piece →
      (G.parse g (p ++ piece)).2 = .ok (.complete unit rest) → rest = []
  announced : ∀ {g g' : γ} {p d : Bytes} {synchronising : Bool},
    (G.parse g p).2 = .ok (.incomplete (.literal d.length synchronising)) → d ≠ [] →
      (G.parse g' (p ++ d)).2 = .ok (.incomplete .line)
  line : ∀ {g : γ} {l : Bytes}, l.IsLine → (G.parse g l).2 ≠ .ok (.incomplete .line)
  lineAfter : ∀ {g g' : γ} {q d l : Bytes} {synchronising : Bool},
    (G.parse g q).2 = .ok (.incomplete (.literal d.length synchronising)) → l.IsLine →
      (G.parse g' (q ++ (d ++ l))).2 ≠ .ok (.incomplete .line)

namespace Reception

/-! ## Rests -/

/-- Where a reception stands between steps: nothing has been gathered, or a literal is waited for,
or its data have come, or input is being skipped. -/
inductive Rests (G : Grammar γ υ) : Fragment → Prop
  | empty : Rests G .empty
  | announced {g : γ} {p : Bytes} {n : Nat} {synchronising : Bool} (hne : p ≠ [])
    (hmark : (G.parse g p).2 = .ok (.incomplete (.literal n synchronising))) :
    Rests G (.gathering p (p.length + n))
  | filled {g : γ} {q d : Bytes} {synchronising : Bool}
    (hmark : (G.parse g q).2 = .ok (.incomplete (.literal d.length synchronising)))
    (hd : d ≠ []) : Rests G (.gathering (q ++ d) (q ++ d).length)
  | discarding (what : Discard) : Rests G (.discarding what)

theorem rests_recovery (G : Grammar γ υ) (g : γ) (raw : Bytes) : Rests G (recovery G g raw) := by
  rw [recovery]
  split
  · exact .discarding _
  · exact .empty

theorem Rests.awaits (hG : G.Paced) {p : Bytes} {required : Nat}
    (h : Rests G (.gathering p required)) : Awaits G p required := by
  cases h with
  | empty => exact ⟨.inl rfl, fun hlt => absurd hlt (Nat.lt_irrefl 0)⟩
  | @announced g _ n synchronising _ hmark =>
    refine ⟨.inr ⟨g, _, hmark⟩, fun _ => ⟨g, synchronising, ?_⟩⟩
    rw [Nat.add_sub_cancel_left, hmark]
  | @filled g q d _ hmark hd =>
    exact ⟨.inr ⟨g, _, hG.announced hmark hd⟩, fun hlt => absurd hlt (Nat.lt_irrefl _)⟩

/-- A line that comes where a reception rests is the end of a unit, is refused, or announces a
literal. -/
theorem Rests.parse_ne_line (hG : G.Paced) {p l : Bytes} {required : Nat}
    (h : Rests G (.gathering p required)) (hwait : required ≤ p.length) (hl : l.IsLine) (g : γ) :
    (G.parse g (p ++ l)).2 ≠ .ok (.incomplete .line) := by
  cases h with
  | empty => exact hG.line hl
  | @announced _ _ n _ _ hmark =>
    obtain rfl : n = 0 := by omega
    exact hG.lineAfter (d := []) hmark hl
  | filled hmark _ =>
    rw [List.append_assoc]
    exact hG.lineAfter hmark hl

/-! ## Steps -/

/-- What a step does where a reception rests. -/
inductive Pace (G : Grammar γ υ) : Reception γ → Reception γ ⊕ Report γ υ → Prop
  /-- The data of the announced literal have come, and one more line is needed. -/
  | data {g g' : γ} {p d rest : Bytes} {synchronising : Bool}
    (hmark : (G.parse g p).2 = .ok (.incomplete (.literal d.length synchronising))) (hd : d ≠ []) :
    Pace G ⟨g', .gathering p (p ++ d).length, d ++ rest⟩
      (.inl ⟨(G.parse g' (p ++ d)).1, .gathering (p ++ d) (p ++ d).length, rest⟩)
  /-- A line announces a literal. -/
  | announces {g : γ} {p l rest : Bytes} {required n : Nat} {synchronising : Bool} (hl : l.IsLine)
    (hparse : (G.parse g (p ++ l)).2 = .ok (.incomplete (.literal n synchronising))) :
    Pace G ⟨g, .gathering p required, l ++ rest⟩ (.inr (.ok (.continuing n synchronising),
      ⟨(G.parse g (p ++ l)).1, .gathering (p ++ l) ((p ++ l).length + n), rest⟩))
  /-- A line ends a unit. -/
  | complete {g : γ} {p l rest : Bytes} {required : Nat} {unit : υ} (hl : l.IsLine)
    (hparse : (G.parse g (p ++ l)).2 = .ok (.complete unit [])) :
    Pace G ⟨g, .gathering p required, l ++ rest⟩
      (.inr (.ok (.complete unit), ⟨(G.parse g (p ++ l)).1, .empty, rest⟩))
  /-- What has been gathered is refused with a line. -/
  | refuses {g g' : γ} {p l rest : Bytes} {required : Nat} {report : Malformed} (hl : l.IsLine) :
    Pace G ⟨g, .gathering p required, l ++ rest⟩ (.inr (refuse G g' rest report (p ++ l)))
  /-- A line is too long. -/
  | long {g : γ} {p l rest : Bytes} {required : Nat} (hl : l.IsLine) :
    Pace G ⟨g, .gathering p required, l ++ rest⟩
      (.inr (refuse G g rest { fault := .lineTooLong } l))
  /-- A line is too long before its end has come. -/
  | overflow {g : γ} {p buffer : Bytes} {required : Nat} :
    Pace G ⟨g, .gathering p required, buffer⟩
      (.inr (.error { fault := .lineTooLong, raw := droppedNote buffer.length },
        ⟨g, .discarding .line, []⟩))
  | needMore (n : Nat) {g : γ} {p buffer : Bytes} {required : Nat} :
    Pace G ⟨g, .gathering p required, buffer⟩
      (.inr (.ok (.needMore n), ⟨g, .gathering p required, buffer⟩))
  | skipsData {g : γ} (data rest : Bytes) :
    Pace G ⟨g, .discarding (.literal data.length), data ++ rest⟩ (.inl ⟨g, .discarding .line, rest⟩)
  | skipsLine {g : γ} {l : Bytes} (hl : l.IsLine) (rest : Bytes) :
    Pace G ⟨g, .discarding .line, l ++ rest⟩
      (.inl ⟨g, (G.literalToDiscard g l.trimLineEnding).elim .empty
        fun length => .discarding (.literal length), rest⟩)
  | lacks {g : γ} {what what' : Discard} {buffer : Bytes} (n : Nat) :
    Pace G ⟨g, .discarding what, buffer⟩ (.inr (.ok (.needMore n), ⟨g, .discarding what', []⟩))

/-- The grammar is asked about what has been gathered with one more line. -/
theorem pace_line (hG : G.Paced) {g : γ} {p l rest : Bytes} {required : Nat}
    (hp : Rests G (.gathering p required)) (hl : l.IsLine) (hwait : required ≤ p.length)
    (hfit : l.length ≤ G.maxLineLength) :
    Pace G ⟨g, .gathering p required, l ++ rest⟩ (parse G g rest (p ++ l) required) := by
  rcases hparse : G.parse g (p ++ l) with ⟨g', report | ⟨unit, left⟩ | _ | ⟨n, synchronising⟩⟩
  · rw [parse, hparse]
    exact .refuses hl
  · have hcomplete := congrArg Prod.snd hparse
    obtain rfl := hG.whole (hp.awaits hG) (.line hwait hl hfit) hcomplete
    rw [parse_of_complete hcomplete]
    exact .complete hl hcomplete
  · -- a line never leaves the grammar in want of another one
    exact absurd (congrArg Prod.snd hparse) (hp.parse_ne_line hG hwait hl g)
  · have hmark := congrArg Prod.snd hparse
    have hpos := List.length_pos_iff.2 hl.ne_nil
    rw [parse_of_literal hmark (by rw [List.length_append]; omega)]
    exact .announces hl hmark

/-- The grammar is asked when the data of a literal have come. -/
theorem pace_literal (hG : G.Paced) {g : γ} {p d rest : Bytes} {required : Nat}
    (hp : Rests G (.gathering p required)) (hwait : p.length < required)
    (hlen : d.length = required - p.length) :
    Pace G ⟨g, .gathering p required, d ++ rest⟩ (parse G g rest (p ++ d) required) := by
  obtain ⟨g', synchronising, hmark⟩ := (hp.awaits hG).announced hwait
  have hd : d ≠ [] := List.length_pos_iff.1 (by omega)
  have hrequired : required = (p ++ d).length := by
    rw [List.length_append]
    omega
  rw [← hlen] at hmark
  subst hrequired
  rw [parse_of_line (hG.announced hmark hd)]
  exact .data hmark hd

theorem pace_step (hG : G.Paced) {r : Reception γ} (h : Rests G r.fragment) :
    Pace G r (step G r) := by
  obtain ⟨g, fragment, buffer⟩ := r
  match fragment with
  -- where a reception rests, nothing is left over
  | .leftover bytes => cases h
  | .gathering p required =>
    have hcases := gatheringStep_step G g p required buffer
    generalize step G ⟨g, .gathering p required, buffer⟩ = b at hcases
    cases hcases with
    | takes hbuffer hpiece =>
      subst hbuffer
      cases hpiece with
      | literal hwait hlen => exact pace_literal hG h hwait hlen
      | line hwait hl hfit => exact pace_line hG h hl hwait hfit
    | needMore n => exact .needMore n
    | long hbuffer hl _ =>
      subst hbuffer
      exact .long hl
    | overflow => exact .overflow
  | .discarding (.literal length) =>
    by_cases hthere : length ≤ buffer.length
    · have hdata : (buffer.take length).length = length := List.length_take_of_le hthere
      have hskip := step_skip_literal (G := G) g (buffer.take length) (buffer.drop length)
      have hpace := Pace.skipsData (G := G) (g := g) (buffer.take length) (buffer.drop length)
      rw [hdata, List.take_append_drop] at hskip hpace
      rwa [hskip]
    · rw [step_skip_literal_short g (Nat.lt_of_not_le hthere)]
      exact .lacks _
  | .discarding .line =>
    rcases hline : buffer.splitLine? with _ | ⟨l, rest⟩
    · rw [step_skip_line_short g hline]
      exact .lacks _
    · obtain ⟨hl, rfl⟩ := Bytes.splitLine?_eq_some_iff.1 hline
      rw [step_skip_line g hl]
      exact .skipsLine hl rest

/-- After a step the reception rests again. -/
theorem Pace.rests {r : Reception γ} {b : Reception γ ⊕ Report γ υ} (h : Pace G r b)
    (hr : Rests G r.fragment) : Rests G (reached b).fragment := by
  cases h with
  | data hmark hd => exact .filled hmark hd
  | announces hl hparse => exact .announced (List.append_ne_nil_of_right_ne_nil _ hl.ne_nil) hparse
  | complete => exact .empty
  | refuses | long => exact rests_recovery G _ _
  | overflow | skipsData | lacks => exact .discarding _
  | needMore => exact hr
  | @skipsLine g l _ =>
    rw [reached, Sum.elim_inl]
    cases G.literalToDiscard g l.trimLineEnding with
    | none => exact .empty
    | some length => exact .discarding _

/-! ## Bytes are used in order -/

/-- The bytes gathered and those that are there, in the order in which they came. -/
def held (r : Reception γ) : Bytes := r.fragment.bytes ++ r.buffer

@[simp]
theorem held_gathering (g : γ) (p buffer : Bytes) (required : Nat) :
    held ⟨g, .gathering p required, buffer⟩ = p ++ buffer := rfl

@[simp]
theorem held_empty (g : γ) (buffer : Bytes) : held ⟨g, .empty, buffer⟩ = buffer := rfl

@[simp]
theorem held_discarding (g : γ) (what : Discard) (buffer : Bytes) :
    held ⟨g, .discarding what, buffer⟩ = buffer := rfl

/-- A refusal gives up what was gathered. -/
@[simp]
theorem held_recovery (g g' : γ) (raw buffer : Bytes) :
    held ⟨g', recovery G g raw, buffer⟩ = buffer := by
  rw [held, bytes_recovery, List.nil_append]

/-- What is known of the bytes `used` when there is a report: a unit is what the grammar makes of
their end, and so is what is refused, unless it was given up before its line had come. -/
def Spends (G : Grammar γ υ) (used : Bytes) : Report γ υ → Prop
  | (.ok (.complete unit), r) => r.fragment = .empty
    ∧ ∃ g p, p <:+ used ∧ G.parse g p = (r.state, .ok (.complete unit []))
  | (.ok (.needMore _), _) | (.ok (.continuing _ _), _) => True
  | (.error m, r) => r.fragment.bytes = []
    ∧ (m.raw <:+ used ∨ m.fault = .lineTooLong ∧ r.buffer = [])

/-- A step that leads on gives up the bytes that it skips and no others. -/
theorem Pace.held_of_inl {r r' : Reception γ} (h : Pace G r (.inl r')) : r'.held <:+ r.held := by
  generalize hb : (Sum.inl r' : Reception γ ⊕ Report γ υ) = b at h
  cases h with
  | data =>
    obtain rfl := Sum.inl.inj hb
    simp
  | skipsData data rest =>
    obtain rfl := Sum.inl.inj hb
    exact List.suffix_append _ _
  | @skipsLine g l _ rest =>
    obtain rfl := Sum.inl.inj hb
    cases G.literalToDiscard g l.trimLineEnding <;> exact List.suffix_append _ _
  | announces | complete | refuses | long | overflow | needMore | lacks => cases hb

theorem Pace.spends {r r' : Reception γ} {o : Except Malformed (Outcome υ)}
    (h : Pace G r (.inr (o, r'))) : ∃ used, r.held = used ++ r'.held ∧ Spends G used (o, r') := by
  generalize hb : (Sum.inr (o, r') : Reception γ ⊕ Report γ υ) = b at h
  cases h with
  | data | skipsData | skipsLine => cases hb
  | announces =>
    cases hb
    exact ⟨[], by simp, trivial⟩
  | @complete g p l rest required unit _ hparse =>
    cases hb
    refine ⟨p ++ l, by simp, rfl, g, p ++ l, List.suffix_rfl, ?_⟩
    rw [← hparse]
  | @refuses g g' p l rest =>
    cases hb
    exact ⟨p ++ l, by simp, bytes_recovery g' _, .inl List.suffix_rfl⟩
  | @long g p l rest =>
    cases hb
    exact ⟨p ++ l, by simp, bytes_recovery g l, .inl (List.suffix_append p l)⟩
  | @overflow g p buffer =>
    cases hb
    exact ⟨p ++ buffer, by simp, rfl, .inr ⟨rfl, rfl⟩⟩
  | needMore =>
    cases hb
    exact ⟨[], rfl, trivial⟩
  | @lacks g what what' buffer =>
    cases hb
    exact ⟨buffer, by simp, trivial⟩

theorem Spends.of_suffix {used used' : Bytes} {b : Report γ υ} (h : Spends G used b)
    (hused : used <:+ used') : Spends G used' b := by
  obtain ⟨m | unit | n | ⟨n, goAhead⟩, r⟩ := b
  · exact ⟨h.1, h.2.imp_left fun hraw => hraw.trans hused⟩
  · obtain ⟨hempty, g, p, hp, hparse⟩ := h
    exact ⟨hempty, g, p, hp.trans hused, hparse⟩
  · trivial
  · trivial

/-- What holds of a step holds of a report. -/
theorem rests_advance (hG : G.Paced) {r : Reception γ} (h : Rests G r.fragment) :
    Rests G (advance G r).2.fragment
      ∧ ∃ used, r.held = used ++ (advance G r).2.held ∧ Spends G used (advance G r) := by
  -- until there is a report, what is held is an end of what was held at the start
  refine iterate_induction (P := fun a => Rests G a.fragment ∧ a.held <:+ r.held)
    (Q := fun b : Report γ υ => Rests G b.2.fragment
      ∧ ∃ used, r.held = used ++ b.2.held ∧ Spends G used b) ?_ ?_ r ⟨h, List.suffix_rfl⟩
  · rintro a a' ⟨ha, hheld⟩ hstep
    have hpace := pace_step hG ha
    rw [hstep] at hpace
    exact ⟨hpace.rests ha, hpace.held_of_inl.trans hheld⟩
  · rintro a ⟨o, r'⟩ ⟨ha, before, hbefore⟩ hstep
    have hpace := pace_step hG ha
    rw [hstep] at hpace
    obtain ⟨used, hused, hspends⟩ := hpace.spends
    refine ⟨hpace.rests ha, before ++ used, ?_, hspends.of_suffix (List.suffix_append _ _)⟩
    rw [← hbefore, hused, List.append_assoc]

/-! ## What the grammar is asked about -/

section
variable {other : γ → Bytes → γ × Except Malformed (Parsed υ)}

/-- A step asks the grammar only about bytes that are held. -/
theorem step_congr_of_held {r : Reception γ}
    (hother : ∀ g p, p <:+: r.held → other g p = G.parse g p) :
    step { G with parse := other } r = step G r := by
  obtain ⟨g, fragment, buffer⟩ := r
  match fragment with
  | .discarding (.literal _) | .discarding .line => rfl
  | .leftover bytes => exact parse_congr (hother g bytes (List.prefix_append _ _).isInfix) _ _
  | .gathering p required =>
    have hasked {piece rest : Bytes} (hbuffer : buffer = piece ++ rest) :
        other g (p ++ piece) = G.parse g (p ++ piece) := by
      refine hother g _ (List.IsPrefix.isInfix ?_)
      simp only [held, Fragment.bytes, hbuffer, ← List.append_assoc]
      exact List.prefix_append _ _
    simp only [step]
    split
    · split
      · exact parse_congr (hasked (List.take_append_drop _ _).symm) _ _
      · rfl
    · split
      · next line rest hline =>
        split
        · rfl
        · exact parse_congr (hasked (Bytes.splitLine?_eq_some_iff.1 hline).2) _ _
      · rfl

theorem advance_congr_of_held (hG : G.Paced) {r : Reception γ} (h : Rests G r.fragment)
    (hother : ∀ g p, p <:+: r.held → other g p = G.parse g p) :
    advance { G with parse := other } r = advance G r := by
  -- the two grammars go through the same receptions, which hold no other bytes
  refine iterate_induction
    (P := fun a => Rests G a.fragment ∧ a.held <:+ r.held
      ∧ advance { G with parse := other } r = advance { G with parse := other } a)
    (Q := fun b : Report γ υ => advance { G with parse := other } r = b) ?_ ?_ r
    ⟨h, List.suffix_rfl, rfl⟩
  · rintro a a' ⟨ha, hheld, heq⟩ hstep
    have hsame := step_congr_of_held (G := G) (r := a) fun g p hp =>
      hother g p (hp.trans hheld.isInfix)
    rw [hstep] at hsame
    have hpace := pace_step hG ha
    rw [hstep] at hpace
    exact ⟨hpace.rests ha, hpace.held_of_inl.trans hheld, heq.trans (advance_of_step hsame)⟩
  · rintro a b ⟨ha, hheld, heq⟩ hstep
    have hsame := step_congr_of_held (G := G) (r := a) fun g p hp =>
      hother g p (hp.trans hheld.isInfix)
    rw [hstep] at hsame
    exact heq.trans (advance_of_report hsame)

end

end Reception

/-! ## Receivers -/

namespace SlotReceiver

/-- From `s₀` and `t₀` on the receiver has been asked and has been used by a connection in other
ways, and the transport has got the bytes `arrived` meanwhile, in any order. -/
inductive Onward (G : Grammar γ υ) (s₀ : SlotReceiver γ) (t₀ : Transport) :
    Bytes → SlotReceiver γ → Transport → Prop
  | start : Onward G s₀ t₀ [] s₀ t₀
  | receive {arrived : Bytes} {s : SlotReceiver γ} {t : Transport}
    (h : Onward G s₀ t₀ arrived s t) :
    Onward G s₀ t₀ arrived (s.receive G t).2.1 (s.receive G t).2.2
  | arrive {arrived d : Bytes} {s : SlotReceiver γ} {t t' : Transport}
    (h : Onward G s₀ t₀ arrived s t) (hbuffer : t'.buffer = t.buffer ++ d) :
    Onward G s₀ t₀ (arrived ++ d) s t'
  | reset {arrived : Bytes} {s : SlotReceiver γ} {t : Transport} (h : Onward G s₀ t₀ arrived s t) :
    Onward G s₀ t₀ arrived (s.reset G) t
  | setState {arrived : Bytes} {s : SlotReceiver γ} {t : Transport} (h : Onward G s₀ t₀ arrived s t)
    (f : γ → γ) : Onward G s₀ t₀ arrived { s with state := f s.state } t

theorem Onward.reached {s₀ s : SlotReceiver γ} {t₀ t : Transport} {arrived : Bytes}
    (h : Onward G s₀ t₀ arrived s t) (h₀ : Reached G s₀) : Reached G s := by
  induction h with
  | start => exact h₀
  | receive _ ih => exact ih.receive _
  | arrive _ _ ih => exact ih
  | reset _ ih => exact ih.reset
  | setState _ f ih => exact ih.setState f

end SlotReceiver

/-- How the slots of a receiver of the grammar are set between calls, whatever has come before. -/
structure Grammar.KeepsSlots (G : Grammar γ υ) : Prop where
  /-- The slots are those of the fragment of a receiver that has come about in the same way and goes
  on in the same way. -/
  fragment : ∀ {s : SlotReceiver γ}, SlotReceiver.Reached G s → ∃ r : Receiver γ,
    Receiver.Reached G r ∧ r.slotted = s ∧ ∀ t : Transport,
      s.receive G t = ((r.receive G t).1, (r.receive G t).2.1.slotted, (r.receive G t).2.2)
  /-- A literal has been announced exactly if a length is required. -/
  continuing : ∀ {s : SlotReceiver γ}, SlotReceiver.Reached G s →
    (s.slots.continuing = true ↔ 0 < s.slots.required)
  /-- Something has been gathered exactly if a literal has been announced. -/
  gathered : ∀ {s : SlotReceiver γ}, SlotReceiver.Reached G s →
    (s.slots.bytes ≠ [] ↔ s.slots.continuing = true)
  /-- It is not longer than required. -/
  length_le : ∀ {s : SlotReceiver γ}, SlotReceiver.Reached G s →
    s.slots.bytes.length ≤ s.slots.required
  /-- Nothing is ever left over. -/
  leftover : ∀ {s : SlotReceiver γ}, SlotReceiver.Reached G s → s.slots.leftover = false
  /-- While something is to be skipped, all other slots are clear. -/
  discard : ∀ {s : SlotReceiver γ} {what : Discard}, SlotReceiver.Reached G s →
    s.slots.discard = some what → s.slots = { discard := some what }
  /-- A unit is what the grammar makes of all that has been gathered, up to the bytes that are still
  there, and all slots are clear after it. -/
  complete : ∀ {s s' : SlotReceiver γ} {t t' : Transport} {unit : υ}, SlotReceiver.Reached G s →
    s.receive G t = (.ok (.complete unit), s', t') → s'.slots = {}
      ∧ ∃ g skipped p, s.slots.bytes ++ t.buffer = skipped ++ (p ++ t'.buffer)
        ∧ G.parse g p = (s'.state, .ok (.complete unit []))
  /-- After a refusal nothing is gathered, and the refused bytes are gone from the buffer, or all
  bytes are. -/
  refused : ∀ {s s' : SlotReceiver γ} {t t' : Transport} {m : Malformed},
    SlotReceiver.Reached G s → s.receive G t = (.error m, s', t') → s'.slots.bytes = []
      ∧ ((∃ skipped, s.slots.bytes ++ t.buffer = skipped ++ (m.raw ++ t'.buffer))
        ∨ m.fault = .lineTooLong ∧ t'.buffer = [])
  /-- However the receiver goes on after a refusal, the grammar is asked only about bytes that came
  after what was refused. -/
  refusedOnce : ∀ {s s' s'' : SlotReceiver γ} {t t' t'' : Transport} {m : Malformed}
    {arrived : Bytes} {other : γ → Bytes → γ × Except Malformed (Parsed υ)},
    SlotReceiver.Reached G s → s.receive G t = (.error m, s', t') →
      SlotReceiver.Onward G s' t' arrived s'' t'' →
      (∀ g p, p <:+: t'.buffer ++ arrived → other g p = G.parse g p) →
      s''.receive { G with parse := other } t'' = s''.receive G t''

namespace Reception

/-- The slots between steps. -/
theorem Rests.slots {f : Fragment} (h : Rests G f) :
    (f.slots.continuing = true ↔ 0 < f.slots.required)
      ∧ (f.slots.bytes ≠ [] ↔ f.slots.continuing = true)
      ∧ f.slots.bytes.length ≤ f.slots.required ∧ f.slots.leftover = false
      ∧ ∀ what, f.slots.discard = some what → f.slots = { discard := some what } := by
  cases h with
  | empty => simp [Fragment.slots, Fragment.empty]
  | @announced _ p n _ hne =>
    have hpos := List.length_pos_iff.2 hne
    have hrequired : 0 < p.length + n := by omega
    simp [Fragment.slots, hne, hrequired]
  | @filled _ q d _ _ hd =>
    have hpos := List.length_pos_iff.2 hd
    have hrequired : 0 < q.length + d.length := by omega
    simp [Fragment.slots, hd, hrequired]
  | discarding what => simp [Fragment.slots]

end Reception

theorem Fragment.bytes_slots (f : Fragment) : f.slots.bytes = f.bytes := by
  cases f <;> rfl

/-- Between calls a receiver is at rest. -/
theorem Receiver.Reached.rests (hG : G.Paced) {r : Receiver γ} (h : Receiver.Reached G r) :
    Reception.Rests G r.fragment := by
  induction h with
  | start | reset => exact .empty
  | @receive r _ t ih => exact (Reception.rests_advance (r := r.reception t) hG ih).1
  | setState _ _ ih => exact ih

namespace SlotReceiver

/-- A report of a receiver that has come about is that of a reception at rest. -/
theorem Reached.exists_reception (hG : G.Paced) {s s' : SlotReceiver γ} {t t' : Transport}
    {o : Except Malformed (Outcome υ)} (hs : Reached G s) (h : s.receive G t = (o, s', t')) :
    ∃ r r' : Receiver γ, r.slotted = s ∧ r'.slotted = s'
      ∧ Reception.Rests G r.fragment
      ∧ Reception.advance G (r.reception t) = (o, r'.reception t') := by
  obtain ⟨r, hr, rfl⟩ := reached_iff.1 hs
  rw [receive_slotted] at h
  obtain ⟨ho, hs', ht'⟩ : (r.receive G t).1 = o ∧ (r.receive G t).2.1.slotted = s'
      ∧ (r.receive G t).2.2 = t' := by simpa only [Prod.mk.injEq] using h
  refine ⟨r, (r.receive G t).2.1, rfl, hs', hr.rests hG, ?_⟩
  rw [← ho, ← ht']
  exact (Receiver.advance_of_receive rfl).1

/-- The bytes that are held. -/
theorem held_reception (r : Receiver γ) (t : Transport) :
    (r.reception t).held = r.slotted.slots.bytes ++ t.buffer := by
  rw [Reception.held, Receiver.slotted, Fragment.bytes_slots]
  rfl

/-- A report uses the front of what is held. -/
theorem Reached.spends (hG : G.Paced) {s s' : SlotReceiver γ} {t t' : Transport}
    {o : Except Malformed (Outcome υ)} (hs : Reached G s) (h : s.receive G t = (o, s', t')) :
    ∃ (used : Bytes) (r' : Receiver γ), r'.slotted = s'
      ∧ s.slots.bytes ++ t.buffer = used ++ (s'.slots.bytes ++ t'.buffer)
      ∧ Reception.Spends G used (o, r'.reception t') := by
  obtain ⟨r, r', rfl, rfl, hrests, hadv⟩ := hs.exists_reception hG h
  obtain ⟨-, used, hused, hspends⟩ := Reception.rests_advance hG (r := r.reception t) hrests
  rw [hadv] at hused hspends
  rw [held_reception, held_reception] at hused
  exact ⟨used, r', rfl, hused, hspends⟩

/-- What is held is the end of what has come. -/
theorem Onward.suffix (hG : G.Paced) {s₀ s : SlotReceiver γ} {t₀ t : Transport} {arrived : Bytes}
    (h : Onward G s₀ t₀ arrived s t) (h₀ : Reached G s₀) :
    s.slots.bytes ++ t.buffer <:+ s₀.slots.bytes ++ t₀.buffer ++ arrived := by
  induction h with
  | start => simp
  | receive h ih =>
    obtain ⟨used, -, -, hused, -⟩ := (h.reached h₀).spends hG rfl
    rw [hused] at ih
    exact (List.suffix_append used _).trans ih
  | arrive _ hbuffer ih =>
    obtain ⟨before, hbefore⟩ := ih
    refine ⟨before, ?_⟩
    simp only [hbuffer, ← List.append_assoc] at hbefore ⊢
    rw [hbefore]
  | @reset arrived s t _ ih =>
    -- only what was gathered is given up
    exact (List.suffix_append s.slots.bytes t.buffer).trans ih
  | setState _ _ ih => exact ih

/-- The grammar is asked only about bytes that are held. -/
theorem Reached.receive_congr (hG : G.Paced) {s : SlotReceiver γ} (hs : Reached G s) {t : Transport}
    {other : γ → Bytes → γ × Except Malformed (Parsed υ)}
    (hother : ∀ g p, p <:+: s.slots.bytes ++ t.buffer → other g p = G.parse g p) :
    s.receive { G with parse := other } t = s.receive G t := by
  obtain ⟨r, hr, rfl⟩ := reached_iff.1 hs
  have hsame := Reception.advance_congr_of_held (r := r.reception t) hG (hr.rests hG)
    (held_reception r t ▸ hother)
  rw [receive_slotted, receive_slotted, Receiver.receive, hsame]
  rfl

/-- The slots between calls. -/
theorem Reached.slots (hG : G.Paced) {s : SlotReceiver γ} (hs : Reached G s) :
    (s.slots.continuing = true ↔ 0 < s.slots.required)
      ∧ (s.slots.bytes ≠ [] ↔ s.slots.continuing = true)
      ∧ s.slots.bytes.length ≤ s.slots.required ∧ s.slots.leftover = false
      ∧ ∀ what, s.slots.discard = some what → s.slots = { discard := some what } := by
  obtain ⟨r, hr, rfl⟩ := reached_iff.1 hs
  exact (hr.rests hG).slots

end SlotReceiver

/-- With a grammar that keeps pace the slots are set in that way. -/
theorem Grammar.Paced.keepsSlots (hG : G.Paced) : G.KeepsSlots where
  fragment hs := by
    obtain ⟨r, hr, rfl⟩ := SlotReceiver.reached_iff.1 hs
    exact ⟨r, hr, rfl, SlotReceiver.receive_slotted G r⟩
  continuing hs := (hs.slots hG).1
  gathered hs := (hs.slots hG).2.1
  length_le hs := (hs.slots hG).2.2.1
  leftover hs := (hs.slots hG).2.2.2.1
  discard hs := (hs.slots hG).2.2.2.2 _
  complete hs h := by
    obtain ⟨_, r', rfl, hused, hempty, g, p, ⟨skipped, rfl⟩, hparse⟩ := hs.spends hG h
    have hclear : r'.slotted.slots = {} := by
      rw [Receiver.slotted, show r'.fragment = .empty from hempty]
      rfl
    rw [hclear, List.append_assoc] at hused
    exact ⟨hclear, g, skipped, p, hused, hparse⟩
  refused hs h := by
    obtain ⟨used, r', rfl, hused, hnone, hraw⟩ := hs.spends hG h
    have hclear : r'.slotted.slots.bytes = [] := (Fragment.bytes_slots _).trans hnone
    refine ⟨hclear, hraw.imp_left ?_⟩
    rintro ⟨skipped, rfl⟩
    rw [hclear, List.append_assoc] at hused
    exact ⟨skipped, hused⟩
  refusedOnce {s s' s'' t} _ _ _ _ _ hs h honward hother := by
    have hs' : SlotReceiver.Reached G s' := by
      have hnext := hs.receive t
      rwa [h] at hnext
    -- nothing is held after the refusal but what is there and what comes
    obtain ⟨_, r', rfl, -, hnone, -⟩ := hs.spends hG h
    have hclear : r'.slotted.slots.bytes = [] := (Fragment.bytes_slots _).trans hnone
    have hsuffix := honward.suffix hG hs'
    rw [hclear, List.nil_append] at hsuffix
    exact (honward.reached hs').receive_congr hG fun g p hp => hother g p (hp.trans hsuffix.isInfix)

/-! ## The grammars -/

/-- A grammar that is never in want of more keeps pace. -/
theorem Grammar.paced_of_never_incomplete {limits : Limits} (hG : G.ObeysLimits limits)
    (hnever : ∀ g p needs, (G.parse g p).2 ≠ .ok (.incomplete needs)) : G.Paced where
  whole := hG.whole
  announced h := absurd h (hnever _ _ _)
  line _ := hnever _ _ _
  lineAfter _ _ := hnever _ _ _

namespace Imap

theorem Command.paced_grammar (config : Config) : (Command.grammar config).Paced where
  whole := (Command.obeysLimits_grammar config).whole
  announced {_ g' _ _ _} h hd := (Command.incremental_grammar config).announced h rfl hd g'
  line {_ l} hl := Command.parse_ne_line hl
  lineAfter {g g' q d l synchronising} h hl := by
    have hmark : Command.parse config.limits.maxLiteralLength q
      = .ok (.incomplete (.literal d.length synchronising)) := h
    exact Command.parse_ne_line_of_announced hmark rfl hl

theorem Response.paced_grammar (config : Config) : (Response.grammar config).Paced where
  whole := (Response.obeysLimits_grammar config).whole
  announced {_ g' _ _ _} h hd := (Response.incremental_grammar config).announced h rfl hd g'
  line {_ l} hl := Response.parse_ne_line hl
  lineAfter {g g' q d l synchronising} h hl := by
    have hmark : (Response.parse config.limits.maxLiteralLength q).2
      = .ok (.incomplete (.literal d.length synchronising)) := h
    exact Response.parse_ne_line_of_announced hmark rfl hl

end Imap

namespace Pop3

theorem Command.paced_grammar (config : Config) : (Command.grammar config).Paced :=
  Grammar.paced_of_never_incomplete (Command.obeysLimits_grammar config)
    fun _ => Command.parse_ne_incomplete

theorem Response.paced_grammar (config : Config) : (Response.grammar config).Paced :=
  Grammar.paced_of_never_incomplete (Response.obeysLimits_grammar config)
    Response.parse_ne_incomplete

end Pop3

/-- Between calls the slots of receivers of IMAP commands and responses and of POP3 commands and
responses are set alike, whatever streams bring and whatever has come before. -/
theorem keepsSlots_grammars (config : Config) :
    (Imap.Command.grammar config).KeepsSlots
    ∧ (Imap.Response.grammar config).KeepsSlots
    ∧ (Pop3.Command.grammar config).KeepsSlots
    ∧ (Pop3.Response.grammar config).KeepsSlots :=
  ⟨(Imap.Command.paced_grammar config).keepsSlots,
    (Imap.Response.paced_grammar config).keepsSlots,
    (Pop3.Command.paced_grammar config).keepsSlots,
    (Pop3.Response.paced_grammar config).keepsSlots⟩

end MailProtocol
