import MailProtocol.Proofs.Imap.Marker
import MailProtocol.Proofs.Imap.Outline
import MailProtocol.Proofs.Reception.Skipping
import Mathlib.Data.List.Infix

/-!
# Skipping along an outline

When a line of a unit has been refused, its peer still sends the rest of the unit. A grammar that
heeds the peer's markers (`Heeds`) skips the rest along its outline: the literal that each line
announces, and then the next line (`Heeds.leads_skippable`).

An announcement is looked for at the end of a line that is being skipped. The beginning of such a
line may have been dropped before its end came, so no read must begin inside of an announcement
(`Outline.UncutBy`).
-/

namespace MailProtocol

namespace Bytes

/-- No piece begins inside of `s` where `rest` comes after it. -/
def Uncut (pieces : List Bytes) (s rest : Bytes) : Prop :=
  ∀ later, later <:+ pieces → ∀ v, v <:+ s → later.flatten = v ++ rest → v = [] ∨ v = s

instance (pieces : List Bytes) (s rest : Bytes) : Decidable (Uncut pieces s rest) :=
  decidable_of_iff
    (∀ later ∈ pieces.tails, ∀ v ∈ s.tails, later.flatten = v ++ rest → v = [] ∨ v = s) (by
      simp only [List.mem_tails]
      rfl)

end Bytes

namespace Imap

open LiteralMarker (Closes)

namespace LiteralMarker

/-- The announcement of a literal of length `n` as it is written in this mode, from its opening
brace to its closing one. -/
def written (mode : LiteralMode) (n : Nat) : Bytes :=
  braced (Decimal.write n) (mode = .nonSynchronising)

theorem literalMarker_eq_written (mode : LiteralMode) (binary : Bool) (n : Nat) :
    Item.literalMarker (mode = .nonSynchronising) binary n
      = (if binary then [Byte.tilde] else []) ++ (written mode n ++ Bytes.crlf) := by
  simp [Item.literalMarker, written, braced]

/-- A marker that is written at the end of a line is found there. -/
theorem atEnd?_append_written (mode : LiteralMode) {n : Nat} (h : n < Decimal.limit) (s : Bytes) :
    ∃ binary, atEnd? (s ++ written mode n) = some ⟨n, binary, mode ≠ .nonSynchronising⟩ := by
  refine ⟨_, atEnd?_eq_some_iff.2 ⟨s, Decimal.write n, ?_, fun _ => Decimal.isDigit_of_mem_write,
    Decimal.read?_write h, rfl⟩⟩
  cases mode <;> rfl

theorem lf_notMem_written (mode : LiteralMode) (n : Nat) : Byte.lf ∉ written mode n := by
  have hdigits : Byte.lf ∉ Decimal.write n := fun h =>
    absurd (Decimal.isDigit_of_mem_write h) (by decide)
  rw [written, braced, List.mem_cons, List.mem_append, not_or, not_or]
  exact ⟨by decide, hdigits, by cases mode <;> decide⟩

end LiteralMarker

/-! ## Outlines that can be skipped -/

namespace Outline

/-- Each line of the outline announces its literal, and the last line ends in no marker. -/
def Skippable : Outline → Prop
  | text s => ∃ content, s = content ++ Bytes.crlf ∧ Byte.lf ∉ content ∧ Closes content
  | literal before data _ more => Byte.lf ∉ before ∧ data.length < Decimal.limit ∧ more.Skippable

/-- What can be read as items can be skipped. -/
theorem Reads.skippable {mode : LiteralMode} {nest nest' : Nest} {waits waits' : Nat} {o : Outline}
    {args : List Item} (h : o.Reads mode nest' waits' nest waits)
    (hargs : nest'.items? = some args) :
    (o ++ .text Bytes.crlf).Skippable := by
  induction h with
  | @text s nest waits hline hrun =>
    refine ⟨s, rfl, hline, ?_⟩
    have hread := hrun 0 (Bytes.crlf ++ []) (follows_crlf [])
    rw [run_crlf hargs] at hread
    exact Scan.closes_of_run hread hline
  | literal hline hlimit _ _ ih => exact ⟨hline, hlimit, ih⟩

/-- Text without an open marker may come first. -/
theorem Skippable.prepend {s : Bytes} {o : Outline} (h : o.Skippable) (hline : Byte.lf ∉ s)
    (hs : Closes s) : (o.prepend s).Skippable := by
  cases o with
  | text t =>
    obtain ⟨content, rfl, hcontent, hcloses⟩ := h
    exact ⟨s ++ content, (List.append_assoc s content _).symm, by simp [hline, hcontent],
      hs.append hcloses⟩
  | literal before data binary more => exact ⟨by simp [hline, h.1], h.2⟩

/-- A line ends in its marker. -/
theorem exists_line_eq (mode : LiteralMode) {before : Bytes} (h : Byte.lf ∉ before) (data : Bytes)
    (binary : Bool) : ∃ front, Byte.lf ∉ front ∧ line mode before data binary
      = front ++ (LiteralMarker.written mode data.length ++ Bytes.crlf) := by
  refine ⟨before ++ if binary then [Byte.tilde] else [], ?_, ?_⟩
  · rw [List.mem_append, not_or]
    exact ⟨h, by cases binary <;> decide⟩
  · rw [line, LiteralMarker.literalMarker_eq_written, List.append_assoc]

theorem isLine_line (mode : LiteralMode) {before data : Bytes} (h : Byte.lf ∉ before)
    (hlimit : data.length < Decimal.limit) (binary : Bool) :
    (line mode before data binary).IsLine :=
  .append h (announces_literalMarker hlimit (mode = .nonSynchronising) binary).isLine

/-- No piece begins inside of a marker of the outline, from its opening brace to its line end. -/
def UncutBy (mode : LiteralMode) (pieces : List Bytes) (rest : Bytes) : Outline → Prop
  | text _ => True
  | literal _ data _ more =>
    Bytes.Uncut pieces (LiteralMarker.written mode data.length ++ Bytes.crlf)
        (data ++ ((more.segments mode).concat ++ rest))
      ∧ more.UncutBy mode pieces rest

end Outline

/-! ## Grammars that skip -/

/-- In the state `g` the grammar skips what is announced by markers as they are written in this
mode. -/
structure Heeds {γ υ : Type} (G : Grammar γ υ) (g : γ) (mode : LiteralMode) : Prop where
  some : ∀ {s : Bytes} {n : Nat} {binary : Bool},
    LiteralMarker.atEnd? s = some ⟨n, binary, mode ≠ .nonSynchronising⟩ →
      G.literalToDiscard g s = some n
  none : ∀ {s : Bytes}, LiteralMarker.atEnd? s = none → G.literalToDiscard g s = none

namespace Heeds

variable {γ υ : Type} {G : Grammar γ υ} {g : γ} {mode : LiteralMode} {pieces : List Bytes}
  {rest : Bytes}

/-- A marker at the end of a line says what is to be skipped. -/
theorem literalToDiscard_written (h : Heeds G g mode) {n : Nat} (hn : n < Decimal.limit)
    (s : Bytes) : G.literalToDiscard g (s ++ LiteralMarker.written mode n) = .some n :=
  let ⟨_, hmarker⟩ := LiteralMarker.atEnd?_append_written mode hn s
  h.some hmarker

/-- Whatever part of a line is there with its whole marker, the marker is found in it. -/
theorem literalToDiscard_line (h : Heeds G g mode) {before data : Bytes} {binary : Bool}
    (hline : Byte.lf ∉ before) (hlimit : data.length < Decimal.limit)
    (hcut : Bytes.Uncut pieces (LiteralMarker.written mode data.length ++ Bytes.crlf) rest)
    {l : Bytes} (hl : l <:+ Outline.line mode before data binary) (hne : l ≠ [])
    (hwhere : l = Outline.line mode before data binary
      ∨ ∃ later, later <:+ pieces ∧ later.flatten = l ++ rest) :
    G.literalToDiscard g (Bytes.trimLineEnding l) = .some data.length := by
  obtain ⟨front, hfront, hsplit⟩ := Outline.exists_line_eq mode hline data binary
  rw [hsplit] at hl
  -- all of the marker is in what is looked at
  obtain ⟨u, rfl⟩ : ∃ u, l = u ++ (LiteralMarker.written mode data.length ++ Bytes.crlf) := by
    rcases hwhere with rfl | ⟨later, hlater, hflatten⟩
    · exact ⟨_, hsplit⟩
    · obtain ⟨front, hfront⟩ := hl
      rcases List.append_eq_append_iff.1 hfront with ⟨z, -, hz⟩ | ⟨z, -, hz⟩
      · exact ⟨z, hz⟩
      · rcases hcut later hlater l ⟨z, hz.symm⟩ hflatten with rfl | rfl
        · exact absurd rfl hne
        · exact ⟨[], rfl⟩
  rw [← List.append_assoc, Bytes.trimLineEnding_crlf, h.literalToDiscard_written hlimit]

/-- A line that announces a literal is followed by skipping that literal, unless it is cut inside of
the marker. -/
theorem leads_marker (h : Heeds G g mode) (hG : G.Lawful) {before data : Bytes} {binary : Bool}
    (hline : Byte.lf ∉ before) (hlimit : data.length < Decimal.limit)
    (hcut : Bytes.Uncut pieces (LiteralMarker.written mode data.length ++ Bytes.crlf) rest) :
    Reception.Leads hG pieces
      ⟨g, .discarding .line, Outline.line mode before data binary ++ rest⟩ []
      ⟨g, .discarding (.literal data.length), rest⟩ :=
  Reception.leads_line hG pieces (.some data.length) (Outline.isLine_line mode hline hlimit binary)
    fun _ => h.literalToDiscard_line hline hlimit hcut

/-- The rest of a unit is skipped along its outline. -/
theorem leads_skippable (h : Heeds G g mode) (hG : G.Lawful) {o : Outline} (ho : o.Skippable)
    (hcut : o.UncutBy mode pieces rest) :
    Reception.Leads hG pieces
      ⟨g, .discarding .line, (o.segments mode).concat ++ rest⟩ [] ⟨g, .empty, rest⟩ := by
  induction o with
  | text s =>
    obtain ⟨content, rfl, hline, hcloses⟩ := ho
    rw [Outline.segments, Segments.concat_ofBytes]
    refine Reception.leads_line hG pieces .none (.append hline Bytes.isLine_crlf) ?_
    intro l hl hne _
    -- whatever is left of the last line, no marker is at its end
    refine h.none ?_
    obtain ⟨front, hfront⟩ := hl
    rcases List.append_eq_append_iff.1 hfront with ⟨z, rfl, rfl⟩ | ⟨z, -, hz⟩
    · rw [Bytes.trimLineEnding_crlf]
      exact (hcloses.of_suffix (List.suffix_append front z)).atEnd?_eq_none
    · obtain _ | ⟨_, _ | ⟨_, z⟩⟩ := z
      · obtain rfl : l = Bytes.crlf := hz.symm
        rfl
      · obtain rfl : l = [Byte.lf] := (List.cons.inj hz).2.symm
        rfl
      · exact absurd (List.cons.inj (List.cons.inj hz).2).2 (by simp [hne])
  | literal before data binary more ih =>
    obtain ⟨hline, hlimit, hmore⟩ := ho
    rw [Outline.concat_segments_literal, List.append_assoc, List.append_assoc]
    exact ((h.leads_marker hG hline hlimit hcut.1).trans
      (Reception.leads_literal hG pieces g data _)).trans (ih hmore hcut.2)

/-- A refusal of the last literal that has been announced begins to skip that literal. -/
theorem recovery_line (h : Heeds G g mode) (p : Bytes) {before data : Bytes} {binary : Bool}
    (hline : Byte.lf ∉ before) (hlimit : data.length < Decimal.limit) :
    Reception.recovery G g (p ++ Outline.line mode before data binary)
      = .discarding (.literal data.length) := by
  obtain ⟨front, hfront, hsplit⟩ := Outline.exists_line_eq mode hline data binary
  have hcontent : Byte.lf ∉ front ++ LiteralMarker.written mode data.length := by
    rw [List.mem_append, not_or]
    exact ⟨hfront, LiteralMarker.lf_notMem_written mode data.length⟩
  obtain ⟨u, hlast⟩ := Bytes.lastLine?_append hcontent p
  rw [hsplit, ← List.append_assoc front, Reception.recovery_of_lastLine? hlast,
    ← List.append_assoc, h.literalToDiscard_written hlimit]
  rfl

end Heeds

end Imap

end MailProtocol
