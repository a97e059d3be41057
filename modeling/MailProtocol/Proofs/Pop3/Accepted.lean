import MailProtocol.Proofs.Bytes.Fields
import MailProtocol.Proofs.Places.Basic
import MailProtocol.Proofs.Pop3.RoundTrip
import MailProtocol.Proofs.Text.Lossy

/-!
# POP3 lines that are read are read again

What a server reads are just the well-formed commands (`Command.wellFormed_of_parse`), and these are
read back. What a client reads can be written again on a line of its own, and where the client stood
before, inside of a body or not, this line is read as the same response
(`Response.parseLine_of_parseLine`): a code is spelled as it is registered, and a line of a body
that came without its dot gets it.
-/

namespace MailProtocol

namespace Bytes

/-- The first word has no space. -/
theorem space_notMem_splitWord (s : Bytes) : Byte.space ∉ s.splitWord.1 := by
  intro hmem
  simpa using List.mem_takeWhile_imp hmem

/-- The first word and what follows it are parts of the string. -/
theorem splitWord_subset (s : Bytes) : s.splitWord.1 ⊆ s ∧ s.splitWord.2 ⊆ s := by
  refine ⟨(List.takeWhile_prefix _).subset, ?_⟩
  exact List.Subset.trans (List.drop_suffix 1 _).subset (List.dropWhile_suffix _).subset

/-- A field is not empty, and a part of the string without the delimiter. -/
theorem of_mem_fields {s f : Bytes} {delimiter : UInt8} (h : f ∈ s.fields delimiter) :
    f ≠ [] ∧ delimiter ∉ f ∧ f ⊆ s :=
  (splits_fields delimiter s).of_mem h

end Bytes

namespace Pop3

/-! ## Commands -/

namespace Command

/-- A command with the verb and the arguments that a line gives is well-formed. -/
theorem wellFormed_argsOf {verb after : Bytes} (hne : verb ≠ [])
    (hverb : Byte.space ∉ verb ∧ Byte.lf ∉ verb) (hafter : Byte.lf ∉ after) :
    WellFormed { verb, args := argsOf verb after } := by
  have hpass (c : Command) (hc : c.verb = verb) :
      c.isVerb "PASS" = isVerb { verb } "PASS" := by rw [isVerb, isVerb, hc]
  unfold argsOf
  cases h : isVerb { verb } "PASS" with
  | true =>
    rw [if_pos rfl]
    refine ⟨hne, hverb, ?_, fun hnot => ?_, fun _ => ?_⟩
    · show ∀ a ∈ (if after.isEmpty then [] else [after]), a ≠ [] ∧ Byte.lf ∉ a
      split
      · exact List.forall_mem_nil _
      · next hafter' => exact List.forall_mem_singleton.2 ⟨by simpa using hafter', hafter⟩
    · rw [hpass _ rfl, h] at hnot
      cases hnot
    · show (if after.isEmpty then [] else [after]).length ≤ 1
      split
      · exact Nat.zero_le 1
      · exact Nat.le_refl 1
  | false =>
    rw [if_neg Bool.false_ne_true]
    refine ⟨hne, hverb, fun a ha => ?_, fun _ a ha => (Bytes.of_mem_fields ha).2.1, fun hyes => ?_⟩
    · obtain ⟨hne', -, hsubset⟩ := Bytes.of_mem_fields ha
      exact ⟨hne', fun hmem => hafter (hsubset hmem)⟩
    · rw [hpass _ rfl, h] at hyes
      cases hyes

/-- A command that has been read is well-formed. -/
theorem wellFormed_of_parse {s rest : Bytes} {c : Command} (h : parse s = .ok (.complete c rest)) :
    c.WellFormed := by
  unfold parse at h
  split at h
  · cases h
  · next line rest' hfirst =>
    have hlf := (Line.first_eq_ok_iff.1 hfirst).1
    have hspace := Bytes.space_notMem_splitWord line
    obtain ⟨hverb, hafter⟩ := Bytes.splitWord_subset line
    simp only at h
    split at h
    · cases h
    · next hne =>
      obtain ⟨rfl, -⟩ := by simpa only [Except.ok.injEq, Parsed.complete.injEq] using h
      exact wellFormed_argsOf (by simpa using hne) ⟨hspace, fun hmem => hlf (hverb hmem)⟩
        fun hmem => hlf (hafter hmem)

end Command

/-! ## Responses -/

/-- The name can stand in a code: it is not empty, and holds nothing that ends it. -/
def IsCodeName (name : String) : Prop :=
  name ≠ "" ∧ ∀ x ∈ name.toList, x ≠ ']' ∧ x ≠ '\n'

instance (name : String) : Decidable (IsCodeName name) :=
  -- by the characters of the name: another instance would try all that there are
  @instDecidableAnd _ _ _ (List.decidableBAll _ name.toList)

theorem isCodeName_readLossy {s : Bytes} (hne : s ≠ []) (hbracket : Byte.closeBracket ∉ s)
    (hlf : Byte.lf ∉ s) : IsCodeName (Utf8.readLossy s) :=
  ⟨Utf8.readLossy_ne_empty hne, fun x hx =>
    ⟨Utf8.ne_of_mem_readLossy rfl (by decide) hbracket x hx,
      Utf8.ne_of_mem_readLossy rfl (by decide) hlf x hx⟩⟩

theorem isCodeName_ofName {name : String} (h : IsCodeName name) :
    IsCodeName (ResponseCode.ofName name).name :=
  ResponseCode.registry.name_lookupOrCreate (by decide +kernel) h

/-- A text that has been read is well-formed, and its code is spelled as it is registered. -/
theorem StatusText.of_parseText {s : Bytes} {text : StatusText}
    (h : Response.parseText s = .ok text) (hlf : Byte.lf ∉ s) :
    text.WellFormed ∧ text.resolved = text := by
  unfold Response.parseText at h
  split at h
  · next inner =>
    rw [List.mem_cons, not_or] at hlf
    have hcut := Bytes.cut Byte.closeBracket inner
    simp only at h
    generalize inner.takeWhile (· != Byte.closeBracket) = name,
      inner.dropWhile (· != Byte.closeBracket) = after,
      Bytes.indexOf? inner Byte.closeBracket = found at hcut h
    cases hcut with
    | whole => cases h
    | first hbracket after =>
      rw [List.mem_append, List.mem_cons, not_or, not_or] at hlf
      simp only at h
      split at h
      · cases h
      · next hne =>
        obtain rfl := Except.ok.inj h
        have hname := isCodeName_ofName
          (isCodeName_readLossy (List.isEmpty_eq_false_iff.1 (by simpa using hne)) hbracket hlf.2.1)
        refine ⟨⟨?_, ?_, nofun⟩, ?_⟩
        · dsimp only
          split
          · exact fun hmem => hlf.2.2.2 (List.mem_cons_of_mem _ hmem)
          · exact hlf.2.2.2
        · rintro _ ⟨⟩
          exact hname
        · rw [resolved, Option.map_some]
          exact congrArg (StatusText.mk · _)
            (congrArg some (ResponseCode.registry.lookupOrCreate_name _))
  · next hopen =>
    obtain rfl := Except.ok.inj h
    refine ⟨⟨hlf, nofun, fun _ hhead => ?_⟩, rfl⟩
    obtain ⟨inner, hinner⟩ := List.head?_eq_some_iff.1 hhead
    exact hopen inner hinner

theorem unstuff_subset (line : Bytes) : unstuff line ⊆ line := by
  unfold unstuff
  split
  · exact List.subset_cons_self _ _
  · exact List.Subset.refl _

namespace Response

/-- A status or a challenge that has been read is well-formed, and its line is read as the same. -/
theorem parseStatus_of_parseStatus {expectsBody : Bool} {reading : Reading} {content : Bytes}
    {u : Response} (hlf : Byte.lf ∉ content)
    (h : parseStatus expectsBody content = (reading, .ok u)) :
    u.WellFormed ∧ u.writeContent ≠ [Byte.dot]
      ∧ parseStatus expectsBody u.writeContent = (reading, .ok u) := by
  have hafter := (Bytes.splitWord_subset content).2
  unfold parseStatus at h
  simp only at h
  split at h
  · next indicator hindicator =>
    rcases htext : parseText content.splitWord.2 with fault | text
    · simp only [htext] at h
      cases h
    · simp only [htext, Prod.mk.injEq, Except.ok.injEq] at h
      obtain ⟨rfl, rfl⟩ := h
      obtain ⟨hwell, hresolved⟩ := StatusText.of_parseText htext fun hmem => hlf (hafter hmem)
      refine ⟨hwell, writeContent_status_ne_dot indicator text, ?_⟩
      rw [parseStatus_write expectsBody indicator hwell, hresolved]
  · split at h
    · next hnone hplus =>
      obtain ⟨rfl, hu⟩ := Prod.mk.inj h
      obtain rfl := Except.ok.inj hu
      refine ⟨fun hmem => hlf (hafter hmem), by simp [writeContent], ?_⟩
      have hword : (writeContent (.continuation content.splitWord.2)).splitWord
          = ([Byte.plus], content.splitWord.2) :=
        Bytes.splitWord_append (w := [Byte.plus]) (t := Byte.space :: content.splitWord.2)
          (by decide) (.inr rfl)
      have hindicator : Indicator.ofWord? [Byte.plus] = none := by decide
      rw [parseStatus, hword]
      simp only [hindicator, if_true]
    · cases h

/-- A response that has been read is well-formed, and its line is read as the same where it was
read, with the same kept in mind. -/
theorem parseLine_of_parseLine {reading reading' : Reading} {content : Bytes} {u : Response}
    (hlf : Byte.lf ∉ content) (h : parseLine reading content = (reading', .ok u)) :
    u.WellFormed ∧ parseLine reading u.writeContent = (reading', .ok u) := by
  have hread := h
  unfold parseLine at h
  split at h
  · next hdot =>
    obtain ⟨-, hu⟩ := Prod.mk.inj h
    obtain rfl := Except.ok.inj hu
    rw [hdot] at hread
    exact ⟨trivial, hread⟩
  · split at h
    · next hbody =>
      obtain ⟨rfl, hu⟩ := Prod.mk.inj h
      obtain rfl := Except.ok.inj hu
      refine ⟨fun hmem => hlf (unstuff_subset content hmem), ?_⟩
      rw [writeContent, parseLine, if_neg (stuff_ne_dot _), if_pos hbody, unstuff_stuff]
    · next hbody =>
      obtain ⟨hwell, hdot, hstatus⟩ := parseStatus_of_parseStatus hlf h
      refine ⟨hwell, ?_⟩
      rw [parseLine, if_neg hdot, if_neg hbody, hstatus]

/-- A response that has been read is written as a line, and this is read as the same. -/
theorem parse_write_of_read {reading reading' : Reading} {s rest : Bytes} {u : Response}
    (h : parse reading s = (reading', .ok (.complete u rest))) :
    u.write.concat.IsLine
      ∧ ∀ t, parse reading (u.write.concat ++ t) = (reading', .ok (.complete u t)) := by
  unfold parse at h
  split at h
  · cases h
  · next content rest' hfirst =>
    have hlf := (Line.first_eq_ok_iff.1 hfirst).1
    rcases hline : parseLine reading content with ⟨after, fault | unit⟩
    · simp only [hline] at h
      cases h
    · simp only [hline, Prod.mk.injEq, Except.ok.injEq, Parsed.complete.injEq] at h
      obtain ⟨rfl, rfl, -⟩ := h
      obtain ⟨hwell, hread⟩ := parseLine_of_parseLine hlf hline
      exact ⟨hwell.isLine, parse_write_append hwell hread⟩

end Response

/-! ## Both sides -/

/-- Well-formed commands are read back whatever follows them, and no other ones are read. Whatever a
client has read is written as one line, and there this line is read as the same response, with the
same kept in mind for the next one. -/
theorem relays_grammars (config : Config) :
    (∀ c : Command, c.WellFormed →
        ∀ t, (Command.grammar config).parse () (c.write.concat ++ t) = ((), .ok (.complete c t)))
      ∧ (∀ s c rest, (Command.grammar config).parse () s = ((), .ok (.complete c rest)) →
        c.WellFormed)
      ∧ ∀ reading reading' s u rest,
        (Response.grammar config).parse reading s = (reading', .ok (.complete u rest)) →
          u.write.concat.IsLine ∧ ∀ t,
            (Response.grammar config).parse reading (u.write.concat ++ t)
              = (reading', .ok (.complete u t)) := by
  refine ⟨fun c hc t => congrArg (Prod.mk ()) (hc.parse_write_append t), fun s c rest h => ?_,
    fun reading reading' s u rest h => Response.parse_write_of_read h⟩
  exact Command.wellFormed_of_parse (Prod.mk.inj h).2

/-- A password that begins with a space, arguments in runs of spaces, a code in another spelling
before two spaces, and in a body a line like a status behind a dot that was not doubled. -/
theorem relays_grammars_retr :
    let pass : Command := { verb := Bytes.ascii "pass", args := [Bytes.ascii " a  b "] }
    let top : Command := { verb := Bytes.ascii "TOP", args := [Bytes.ascii "1", Bytes.ascii "2"] }
    let opened : Response := .status .positive
      { code := some (.known "IN-USE"), text := Bytes.ascii " x" }
    let body : Response.Reading := { inBody := true }
    ((Command.grammar {}).parse () (pass.write.concat ++ Bytes.ascii "Q")
          = ((), .ok (.complete pass (Bytes.ascii "Q")))
        ∧ (Command.grammar {}).parse () (Bytes.ascii "TOP  1  2 \r\n")
          = ((), .ok (.complete top [])) ∧ top.WellFormed)
      ∧ (Response.grammar {}).parse { expectsBody := true } (Bytes.ascii "+ok [in-use]  x\r\n")
          = (body, .ok (.complete opened []))
        ∧ (Response.grammar {}).parse { expectsBody := true }
            (opened.write.concat ++ Bytes.ascii ".\r\n")
          = (body, .ok (.complete opened (Bytes.ascii ".\r\n")))
      ∧ (Response.grammar {}).parse body (Bytes.ascii ".+OK\r\n")
          = (body, .ok (.complete (.line (Bytes.ascii "+OK")) []))
        ∧ (Response.grammar {}).parse body
            ((Response.line (Bytes.ascii "+OK")).write.concat ++ Bytes.ascii ".\r\n")
          = (body, .ok (.complete (.line (Bytes.ascii "+OK")) (Bytes.ascii ".\r\n"))) := by
  intro pass top opened body
  obtain ⟨hcommand, haccepted, hresponse⟩ := relays_grammars {}
  have hpass : pass.WellFormed := by
    refine ⟨by decide, by decide, ?_, fun h => ?_, fun _ => by decide⟩
    · exact List.forall_mem_singleton.2 ⟨by decide, by decide⟩
    · exact absurd h (by decide +kernel)
  have htop : (Command.grammar {}).parse () (Bytes.ascii "TOP  1  2 \r\n")
      = ((), .ok (.complete top [])) := by decide +kernel
  have hopened : (Response.grammar {}).parse { expectsBody := true }
      (Bytes.ascii "+ok [in-use]  x\r\n") = (body, .ok (.complete opened [])) := by decide +kernel
  have hline : (Response.grammar {}).parse body (Bytes.ascii ".+OK\r\n")
      = (body, .ok (.complete (.line (Bytes.ascii "+OK")) [])) := by decide +kernel
  exact ⟨⟨hcommand pass hpass _, htop, haccepted _ _ _ htop⟩,
    hopened, (hresponse _ _ _ _ _ hopened).2 _, hline, (hresponse _ _ _ _ _ hline).2 _⟩

end Pop3

end MailProtocol
