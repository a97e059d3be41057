import MailProtocol.Pop3.Capability
import MailProtocol.Proofs.Bytes.Fields
import MailProtocol.Proofs.Token.Negotiation
import MailProtocol.Proofs.Token.Registry

/-!
# Mechanisms in a listing of capabilities

What the lines of a listing stand for is said of their words (`Capability.Lists`), and the list of
tokens is that of the lines, put together in their order (`Capability.ofLines_eq_iff`).

A capability `SASL/<mechanism>` has a separator in its name, so no tag answers for it, only a name
that is alike as a whole. A token has such a name if it has been made for the mechanism, as a later
word of a line of `SASL`, or if a server sent the whole name as a first word
(`Capability.isCapable_sasl_iff`).
-/

namespace MailProtocol.Pop3.Capability

open Utf8 (readLossy)

variable {line name : Bytes} {lines ws : List Bytes} {ts : List Token} {m : String}

/-! ## What a line stands for -/

/-- The capabilities that a line stands for: none if it has no words, one for each mechanism if it
is of `SASL` and has any, and otherwise the one of its first word, with the other words as
arguments. -/
inductive Lists (line : Bytes) : List Token → Prop
  | blank (h : line.HasWords []) : Lists line []
  | mechanisms {name : Bytes} {ws : List Bytes} (h : line.HasWords (name :: ws))
      (hname : Bytes.eqIgnoreCase name (Bytes.ascii "SASL") = true) (hws : ws ≠ []) :
      Lists line (ws.map fun w => ofName ("SASL/" ++ readLossy w))
  | one {name : Bytes} {ws : List Bytes} (h : line.HasWords (name :: ws))
      (hname : Bytes.eqIgnoreCase name (Bytes.ascii "SASL") = true → ws = []) :
      Lists line [{ ofName (readLossy name) with args := ws.map readLossy }]

theorem ofLine_blank (h : line.HasWords []) : ofLine line = [] := by
  rw [ofLine, Bytes.hasWords_iff.1 h]

theorem ofLine_mechanisms (h : line.HasWords (name :: ws))
    (hname : Bytes.eqIgnoreCase name (Bytes.ascii "SASL") = true) (hws : ws ≠ []) :
    ofLine line = ws.map fun w => ofName ("SASL/" ++ readLossy w) := by
  have hsasl : (ws.map readLossy).map sasl = ws.map fun w => ofName ("SASL/" ++ readLossy w) := by
    simp only [List.map_map, Function.comp_def, sasl]
  rw [ofLine, Bytes.hasWords_iff.1 h, ← hsasl]
  exact if_pos ⟨hname, mt List.map_eq_nil_iff.1 hws⟩

theorem ofLine_one (h : line.HasWords (name :: ws))
    (hname : Bytes.eqIgnoreCase name (Bytes.ascii "SASL") = true → ws = []) :
    ofLine line = [{ ofName (readLossy name) with args := ws.map readLossy }] := by
  rw [ofLine, Bytes.hasWords_iff.1 h]
  exact if_neg fun hboth => hboth.2 (List.map_eq_nil_iff.2 (hname hboth.1))

theorem lists_ofLine (line : Bytes) : Lists line (ofLine line) := by
  have hline : line.HasWords (line.trimLineEnding.fields Byte.space) := Bytes.hasWords_iff.2 rfl
  cases hfields : line.trimLineEnding.fields Byte.space with
  | nil =>
    rw [hfields] at hline
    rw [ofLine_blank hline]
    exact .blank hline
  | cons name ws =>
    rw [hfields] at hline
    by_cases hname : Bytes.eqIgnoreCase name (Bytes.ascii "SASL") = true → ws = []
    · rw [ofLine_one hline hname]
      exact .one hline hname
    · obtain ⟨hword, hws⟩ := Classical.not_imp.1 hname
      rw [ofLine_mechanisms hline hword hws]
      exact .mechanisms hline hword hws

theorem Lists.ofLine_eq (h : Lists line ts) : ofLine line = ts := by
  cases h with
  | blank h => exact ofLine_blank h
  | mechanisms h hname hws => exact ofLine_mechanisms h hname hws
  | one h hname => exact ofLine_one h hname

theorem lists_iff : Lists line ts ↔ ofLine line = ts :=
  ⟨Lists.ofLine_eq, fun h => h ▸ lists_ofLine line⟩

theorem forall₂_lists_iff {groups : List (List Token)} :
    List.Forall₂ Lists lines groups ↔ lines.map ofLine = groups := by
  have hlists : Lists = fun line ts => ofLine line = ts :=
    funext₂ fun _ _ => propext lists_iff
  calc List.Forall₂ Lists lines groups
    _ ↔ List.Forall₂ (fun line ts => ofLine line = ts) lines groups := by rw [hlists]
    _ ↔ List.Forall₂ Eq (lines.map ofLine) groups := List.forall₂_map_left_iff.symm
    _ ↔ lines.map ofLine = groups := by rw [List.forall₂_eq_eq_eq]

/-- The list of a listing is made of what its lines stand for, in their order. -/
theorem ofLines_eq_iff : ofLines lines = ts
    ↔ ∃ groups, List.Forall₂ Lists lines groups ∧ groups.flatten = ts := by
  simp only [forall₂_lists_iff, exists_eq_left', ofLines, List.flatMap_def]

/-! ## Asking for a mechanism -/

/-- The line is of `SASL`, and one of its later words is the mechanism. -/
def OffersMechanism (line : Bytes) (m : String) : Prop :=
  ∃ name ws, line.HasWords (name :: ws) ∧ Bytes.eqIgnoreCase name (Bytes.ascii "SASL") = true
    ∧ ∃ w ∈ ws, Text.Alike (readLossy w) m

/-- The first word of the line is the whole name of the capability. -/
def NamesMechanism (line : Bytes) (m : String) : Prop :=
  ∃ name ws, line.HasWords (name :: ws) ∧ Text.Alike (readLossy name) ("SASL/" ++ m)

theorem offersMechanism_iff (h : line.HasWords (name :: ws)) : OffersMechanism line m
    ↔ Bytes.eqIgnoreCase name (Bytes.ascii "SASL") = true ∧ ∃ w ∈ ws, Text.Alike (readLossy w) m :=
  h.exists_iff

theorem namesMechanism_iff (h : line.HasWords (name :: ws)) :
    NamesMechanism line m ↔ Text.Alike (readLossy name) ("SASL/" ++ m) :=
  h.exists_iff

theorem slash_mem_sasl (m : String) : '/' ∈ ("SASL/" ++ m).toList := by
  rw [String.toList_append]
  exact List.mem_append_left _ (by decide)

theorem readLossy_sasl : readLossy (Bytes.ascii "SASL") = "SASL" := by
  have hword : Bytes.ascii "SASL" = Utf8.encode "SASL" := by decide
  rw [hword, Utf8.readLossy_encode]

/-- A word that is `SASL` is not the whole name of a mechanism's capability: it has no slash. -/
theorem not_alike_of_sasl (h : Bytes.eqIgnoreCase name (Bytes.ascii "SASL") = true) (m : String) :
    ¬Text.Alike (readLossy name) ("SASL/" ++ m) := by
  intro halike
  have hsasl : Text.Alike "SASL" ("SASL/" ++ m) := by
    rw [Text.alike_iff_upper_eq, ← Text.alike_iff_upper_eq.1 halike, ← readLossy_sasl,
      ← Text.alike_iff_upper_eq.1 (Utf8.alike_readLossy h)]
  have hmem := Token.mem_of_alike hsasl rfl (slash_mem_sasl m)
  exact absurd hmem (by decide)

/-- A line stands for a capability of the mechanism if it offers it, or names the capability. -/
theorem Lists.exists_alike_iff (h : Lists line ts) :
    (∃ t ∈ ts, Text.Alike t.name ("SASL/" ++ m))
      ↔ OffersMechanism line m ∨ NamesMechanism line m := by
  cases h with
  | blank h =>
    constructor
    · rintro ⟨t, ht, -⟩
      cases ht
    · rintro (⟨name, ws, hwords, -⟩ | ⟨name, ws, hwords, -⟩)
      · cases h.unique hwords
      · cases h.unique hwords
  | mechanisms h hname hws =>
    rw [offersMechanism_iff h, namesMechanism_iff h,
      or_iff_left (not_alike_of_sasl hname m), and_iff_right hname]
    simp only [List.mem_map, exists_exists_and_eq_and, ofName,
      Registry.alike_lookupOrCreate_iff, Text.alike_append_left_iff]
  | one h hname =>
    have hoffers : ¬OffersMechanism line m := by
      rw [offersMechanism_iff h]
      rintro ⟨hword, w, hw, -⟩
      rw [hname hword] at hw
      cases hw
    rw [or_iff_right hoffers, namesMechanism_iff h]
    simp only [List.mem_singleton, exists_eq_left, ofName, Registry.alike_lookupOrCreate_iff]

/-- A mechanism is there just if a line of `SASL` offers it or a line names its capability. -/
theorem isCapable_sasl_iff : Token.isCapable (ofLines lines) ("SASL/" ++ m) = true
    ↔ (∃ line ∈ lines, OffersMechanism line m) ∨ ∃ line ∈ lines, NamesMechanism line m := by
  have hline (line : Bytes) : (∃ t ∈ ofLine line, t.answers ("SASL/" ++ m) = true)
      ↔ OffersMechanism line m ∨ NamesMechanism line m := by
    rw [← (lists_ofLine line).exists_alike_iff]
    simp only [Token.answers_iff_of_separator (c := '/') rfl (slash_mem_sasl m)]
  rw [Token.isCapable, ofLines, List.any_flatMap, List.any_eq_true]
  simp only [List.any_eq_true, hline, and_or_left, exists_or]

/-- A listing says of every mechanism whether it is there, and of every line what it stands for. -/
structure Expands (lines : List Bytes) : Prop where
  tokens : ∀ ts, ofLines lines = ts
    ↔ ∃ groups, List.Forall₂ Lists lines groups ∧ groups.flatten = ts
  isCapable : ∀ m, Token.isCapable (ofLines lines) ("SASL/" ++ m) = true
    ↔ (∃ line ∈ lines, OffersMechanism line m) ∨ ∃ line ∈ lines, NamesMechanism line m
  /-- A token is named for what it has been made from, and has no arguments by itself. -/
  named : ∀ name, Text.Alike (ofName name).name name ∧ (ofName name).args = []

/-- Every listing, of lines of any bytes, is expanded to just the mechanisms that it offers. -/
theorem expands (lines : List Bytes) : Expands lines where
  tokens _ := ofLines_eq_iff
  isCapable _ := isCapable_sasl_iff
  named name := ⟨registry.alike_lookupOrCreate name, registry.args_lookupOrCreate name⟩

/-- Spaces of any number, line ends of either kind or none, a blank line and words in any case. -/
example : ofLines [Bytes.ascii " sasl  plain\n", Bytes.ascii "\r\n", Bytes.ascii "Expire 60"]
    = [.known "SASL/PLAIN", (Token.known "EXPIRE").withArgs ["60"]] := by decide +kernel

end MailProtocol.Pop3.Capability
