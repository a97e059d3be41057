import MailProtocol.Proofs.Imap.Accepted
import MailProtocol.Proofs.Imap.ItemGrammar
import MailProtocol.Proofs.Imap.ResponseRoundTrip
import MailProtocol.Proofs.Text.Lossy

/-!
# Responses that are read are read again

What a client reads is well-formed, and its codes are spelled as they are registered
(`Response.of_parse`). So a response can be passed on: written again, it is read as the same
response. Data whose first item is an atom that names a condition are the exception
(`Response.relayed_iff`). They can be read, since the word after the tag is looked at with all that
stands against it while the first item may come after further spaces and end sooner; and they are
written like a status.
-/

namespace MailProtocol.Imap

/-! ## Items of a code -/

/-- The item can be written into a code: it is no literal and does not end the code. -/
structure Item.InCode (x : Item) : Prop where
  noLiteral : x.hasLiteral = false
  noBracket : Byte.closeBracket ∉ (x.write .inline).concat

/-- The items can be written into a code. -/
structure Item.AllInCode (xs : List Item) : Prop where
  noLiteral : Item.anyLiteral xs = false
  noBracket : Byte.closeBracket ∉ (Item.writeAll .inline xs).concat

namespace Item

theorem allInCode_nil : AllInCode [] where
  noLiteral := rfl
  noBracket := by simp [writeAll, Segments.concat_empty]

theorem AllInCode.cons {x : Item} {xs : List Item} (hx : x.InCode) (hxs : AllInCode xs) :
    AllInCode (x :: xs) where
  noLiteral := by rw [anyLiteral, hx.noLiteral, hxs.noLiteral, Bool.or_false]
  noBracket := by
    rw [writeAll, Segments.concat_append, List.mem_append, not_or]
    refine ⟨hx.noBracket, ?_⟩
    cases xs with
    | nil => simp [writeMore, Segments.concat_empty]
    | cons y ys =>
      rw [concat_writeMore_cons]
      exact List.not_mem_cons_of_ne_of_not_mem (by decide) hxs.noBracket

theorem AllInCode.list {xs : List Item} (h : AllInCode xs) : (list xs).InCode where
  noLiteral := by rw [hasLiteral, h.noLiteral]
  noBracket := by
    rw [write, Segments.concat_append, Segments.concat_append, Segments.concat_ofBytes,
      Segments.concat_ofBytes, List.mem_append, List.mem_append, not_or, not_or]
    exact ⟨⟨by decide, h.noBracket⟩, by decide⟩

theorem closeBracket_notMem_writeQuoted {s : Bytes} (h : Byte.closeBracket ∉ s) :
    Byte.closeBracket ∉ writeQuoted s := by
  rw [writeQuoted, List.mem_cons, List.mem_append, List.mem_flatMap, not_or, not_or]
  refine ⟨by decide, ?_, by decide⟩
  rintro ⟨b, hb, hmem⟩
  have hne : Byte.closeBracket ≠ b := fun he => h (he ▸ hb)
  rw [escapeQuoted] at hmem
  split at hmem
  · rw [List.mem_cons, List.mem_singleton] at hmem
    exact hmem.elim (by decide) hne
  · exact hne (List.mem_singleton.1 hmem)

end Item

/-- The bytes of a quoted string stand between its quotes. -/
theorem QuotedText.subset {text content : Bytes} (h : QuotedText text content) :
    content ⊆ text := by
  induction h with
  | nil => exact List.Subset.refl _
  | plain _ _ _ ih => exact List.cons_subset_cons _ ih
  | escaped _ _ ih =>
    exact List.Subset.trans (List.cons_subset_cons _ ih) (List.subset_cons_self _ _)

/-- A literal is announced at the end of a line. -/
theorem lf_mem_announcement (binary : Bool) (digits : Bytes) (plus : Bool) :
    Byte.lf ∈ announcement binary digits plus := by
  simp [announcement, Bytes.crlf]

section
variable {maxLiteral : Nat}

mutual

theorem Element.inCode {text rest : Bytes} {x : Item} {waits : Nat}
    (h : Element maxLiteral text x waits rest) (hlf : Byte.lf ∉ text)
    (hbracket : Byte.closeBracket ∉ text) : x.InCode := by
  match h with
  | .list hitems =>
    rw [List.mem_cons, List.mem_append, not_or, not_or] at hlf hbracket
    exact (hitems.allInCode hlf.2.1 hbracket.2.1).list
  | .quoted htext =>
    rw [List.mem_cons, List.mem_append, not_or, not_or] at hbracket
    refine ⟨rfl, ?_⟩
    rw [Item.write, Segments.concat_ofBytes]
    exact Item.closeBracket_notMem_writeQuoted fun hmem => hbracket.2.1 (htext.subset hmem)
  | .literal .. => exact absurd (List.mem_append_left _ (lf_mem_announcement _ _ _)) hlf
  | .nil _ _ =>
    refine ⟨rfl, ?_⟩
    rw [Item.write, Segments.concat_ofBytes]
    decide
  | .atom _ _ =>
    refine ⟨rfl, ?_⟩
    rw [Item.write, Segments.concat_ofBytes]
    exact hbracket

/-- Items that a line without closing brackets derives can be written into a code. -/
theorem Elements.allInCode {text rest : Bytes} {items : List Item} {waits : Nat}
    (h : Elements maxLiteral text items waits rest) (hlf : Byte.lf ∉ text)
    (hbracket : Byte.closeBracket ∉ text) : Item.AllInCode items := by
  match h with
  | .nil => exact Item.allInCode_nil
  | .space hitems =>
    rw [List.mem_cons, not_or] at hlf hbracket
    exact hitems.allInCode hlf.2 hbracket.2
  | .cons hx hitems =>
    rw [List.mem_append, not_or] at hlf hbracket
    exact (hitems.allInCode hlf.2 hbracket.2).cons (hx.inCode hlf.1 hbracket.1)

end

/-! ## Codes -/

/-- The name can stand in a code: it is not empty, and holds nothing that ends it. -/
def IsCodeName (name : String) : Prop :=
  name ≠ "" ∧ ∀ x ∈ name.toList, x ≠ ' ' ∧ x ≠ ']' ∧ x ≠ '\n'

instance (name : String) : Decidable (IsCodeName name) :=
  -- by the characters of the name: another instance would try all that there are
  @instDecidableAnd _ _ _ (List.decidableBAll _ name.toList)

theorem isCodeName_readLossy {s : Bytes} (hne : s ≠ []) (hspace : Byte.space ∉ s)
    (hbracket : Byte.closeBracket ∉ s) (hlf : Byte.lf ∉ s) : IsCodeName (Utf8.readLossy s) :=
  ⟨Utf8.readLossy_ne_empty hne, fun x hx =>
    ⟨Utf8.ne_of_mem_readLossy rfl (by decide) hspace x hx,
      Utf8.ne_of_mem_readLossy rfl (by decide) hbracket x hx,
      Utf8.ne_of_mem_readLossy rfl (by decide) hlf x hx⟩⟩

theorem isCodeName_ofName {name : String} (h : IsCodeName name) :
    IsCodeName (ResponseCode.ofName name).name :=
  ResponseCode.registry.name_lookupOrCreate (by decide +kernel) h

namespace Code

/-- Arguments that have been read can be written into a code. -/
theorem of_parseArgs {s : Bytes} {items : List Item} (h : parseArgs maxLiteral s = .ok items)
    (hlf : Byte.lf ∉ s) (hbracket : Byte.closeBracket ∉ s) :
    Item.AllWellFormed maxLiteral items ∧ Item.AllInCode items := by
  unfold parseArgs at h
  split at h
  · cases h
  · cases h
  · next items' waits rest hparse =>
    obtain rfl := Except.ok.inj h
    refine ⟨Scan.wellFormed_of_run Nest.wellFormed_empty hparse, ?_⟩
    obtain ⟨text, heq, hitems⟩ := elements_of_parse hparse
    -- the line end that is found is the one that has been put behind the arguments
    have hsubset : text ⊆ s := by
      rcases List.append_eq_append_iff.1 heq with ⟨w, rfl, hw⟩ | ⟨w, rfl, -⟩
      · have hlength := congrArg List.length hw
        rw [List.length_append, List.length_append] at hlength
        obtain rfl : w = [] := List.eq_nil_of_length_eq_zero (by omega)
        rw [List.append_nil]
        exact List.Subset.refl s
      · exact List.subset_append_left text w
    exact hitems.allInCode (fun hmem => hlf (hsubset hmem)) fun hmem => hbracket (hsubset hmem)

/-- A code with the name and the arguments that have been read is well-formed, and spelled as it is
registered. -/
theorem of_name {name : Bytes} (hne : ¬name.isEmpty = true) (hspace : Byte.space ∉ name)
    (hbracket : Byte.closeBracket ∉ name) (hlf : Byte.lf ∉ name) {args : List Item}
    (hargs : Item.AllWellFormed maxLiteral args) (hin : Item.AllInCode args) :
    let c : Code := { token := ResponseCode.ofName (Utf8.readLossy name), args }
    c.WellFormed maxLiteral ∧ c.resolved = c := by
  intro c
  obtain ⟨hname, hbytes⟩ := isCodeName_ofName
    (isCodeName_readLossy (List.isEmpty_eq_false_iff.1 (by simpa using hne)) hspace hbracket hlf)
  refine ⟨⟨hname, hbytes, hargs, hin.noLiteral, hin.noBracket⟩, ?_⟩
  exact congrArg (Code.mk · args) (ResponseCode.registry.lookupOrCreate_name _)

theorem of_parse {s : Bytes} {c : Code} (h : parse maxLiteral s = .ok c) (hlf : Byte.lf ∉ s)
    (hbracket : Byte.closeBracket ∉ s) : c.WellFormed maxLiteral ∧ c.resolved = c := by
  have hcut := Bytes.cut Byte.space s
  unfold parse at h
  simp only at h
  generalize s.takeWhile (· != Byte.space) = name, s.dropWhile (· != Byte.space) = after,
    s.indexOf? Byte.space = found at hcut h
  split at h
  · cases h
  · next hne =>
    cases hcut with
    | whole hspace =>
      obtain rfl := Except.ok.inj h
      exact of_name hne hspace hbracket hlf trivial Item.allInCode_nil
    | first hspace args =>
      rw [List.mem_append, List.mem_cons, not_or, not_or] at hlf hbracket
      rcases hargs : parseArgs maxLiteral args with fault | items
      · simp only [hargs] at h
        cases h
      · simp only [hargs] at h
        obtain rfl := Except.ok.inj h
        obtain ⟨hwell, hin⟩ := of_parseArgs hargs hlf.2.2 hbracket.2.2
        exact of_name hne hspace hbracket.1 hlf.1 hwell hin

end Code

/-! ## Status texts -/

theorem suffix_dropSpace (s : Bytes) : dropSpace s <:+ s := by
  unfold dropSpace
  split
  · exact List.suffix_cons _ _
  · exact List.suffix_refl s

theorem lf_notMem_dropSpace {s : Bytes} (h : Byte.lf ∉ s) : Byte.lf ∉ dropSpace s :=
  fun hmem => h ((suffix_dropSpace s).subset hmem)

/-- A text that has been read is well-formed, and its code is spelled as it is registered. -/
theorem StatusText.of_parse {s : Bytes} {text : StatusText} (h : parse maxLiteral s = .ok text)
    (hlf : Byte.lf ∉ s) : text.WellFormed maxLiteral ∧ text.resolved = text := by
  replace hlf := lf_notMem_dropSpace hlf
  unfold parse at h
  split at h
  · next inner hinner =>
    rw [hinner, List.mem_cons, not_or] at hlf
    have hcut := Bytes.cut Byte.closeBracket inner
    generalize inner.takeWhile (· != Byte.closeBracket) = name,
      inner.dropWhile (· != Byte.closeBracket) = after,
      Bytes.indexOf? inner Byte.closeBracket = found at hcut h
    cases hcut with
    | whole => cases h
    | first hbracket after =>
      rw [List.mem_append, List.mem_cons, not_or, not_or] at hlf
      rcases hcode : Code.parse maxLiteral name with fault | c
      · simp only [hcode] at h
        cases h
      · simp only [hcode] at h
        obtain rfl := Except.ok.inj h
        obtain ⟨hwell, hresolved⟩ := Code.of_parse hcode hlf.2.1 hbracket
        refine ⟨⟨lf_notMem_dropSpace hlf.2.2.2, ?_, nofun⟩, ?_⟩
        · rintro _ ⟨⟩
          exact hwell
        · rw [resolved, Option.map_some, hresolved]
  · next hopen =>
    obtain rfl := Except.ok.inj h
    refine ⟨⟨hlf, nofun, fun _ hhead => ?_⟩, rfl⟩
    obtain ⟨inner, hinner⟩ := List.head?_eq_some_iff.1 hhead
    exact hopen inner hinner

/-! ## Responses -/

namespace Response

/-- The condition that data are taken for when they are written: that of their first item, if this
is an atom that names one. -/
def looksLike? : Response → Option Condition
  | data (.atom s :: _) => Condition.ofWord? s
  | _ => none

theorem wellFormed_ofStatus {tag : Bytes} (htag : IsTag tag) {status : Status}
    (h : status.text.WellFormed maxLiteral) : (ofStatus tag status).WellFormed maxLiteral := by
  unfold ofStatus
  split
  · exact .untagged h
  · next hne => exact .tagged htag hne h

theorem resolved_ofStatus {tag : Bytes} {status : Status} (h : status.text.resolved = status.text) :
    (ofStatus tag status).resolved = ofStatus tag status := by
  have hstatus : status.resolved = status := congrArg (Status.mk status.condition) h
  unfold ofStatus
  split <;> rw [resolved, hstatus]

theorem looksLike?_of_wellFormed {r : Response} (h : r.WellFormed maxLiteral) :
    r.looksLike? = none := by
  cases h with
  | tagged | untagged | continuation => rfl
  | @data items _ hfirst =>
    unfold looksLike?
    split
    · next s more hdata =>
      obtain rfl := Response.data.inj hdata
      exact Condition.ofWord?_eq_none (hfirst s rfl)
    · rfl

/-- Data are well-formed, or they begin with an atom that names a condition. -/
theorem data_cases {items : List Item} (h : Item.AllWellFormed maxLiteral items) :
    (data items).WellFormed maxLiteral ∨ ∃ s more condition, items = .atom s :: more ∧ AtomText s
      ∧ Condition.ofWord? s = some condition := by
  rcases hlooks : (data items).looksLike? with _ | condition
  · left
    refine .data h fun s hhead condition => ?_
    obtain ⟨more, rfl⟩ := List.head?_eq_some_iff.1 hhead
    have hnone : Condition.ofWord? s = none := hlooks
    rw [Condition.ofWord?, List.find?_eq_none] at hnone
    simpa using hnone condition (by cases condition <;> decide)
  · right
    unfold looksLike? at hlooks
    split at hlooks
    · next s more hdata =>
      obtain rfl := Response.data.inj hdata
      exact ⟨s, more, condition, rfl, h.1.2.1, hlooks⟩
    · cases hlooks

/-- A response that has been read is well-formed, or looks like a status, and its code is spelled as
it is registered. -/
theorem of_parse {s rest : Bytes} {r : Response}
    (h : (parse maxLiteral s).2 = .ok (.complete r rest)) :
    (r.WellFormed maxLiteral ∨ ∃ s items condition, r = .data (.atom s :: items) ∧ AtomText s
        ∧ Condition.ofWord? s = some condition)
      ∧ r.resolved = r := by
  rcases kind_of_parse h with ⟨after, -, hcont⟩ |
    ⟨tag, -, after, condition, htag, -, -, -, -, hstatus⟩ | ⟨after, -, -, hdata⟩
  · obtain ⟨content, rest', hlf, -, hunit⟩ := of_parseContinuation hcont
    obtain ⟨rfl, -⟩ := by simpa only [Parsed.complete.injEq] using hunit
    exact ⟨.inl (.continuation (lf_notMem_dropSpace hlf)), rfl⟩
  · obtain ⟨content, rest', text, hlf, -, htext, hunit⟩ := of_parseStatus hstatus
    obtain ⟨rfl, -⟩ := by simpa only [Parsed.complete.injEq] using hunit
    obtain ⟨hwell, hresolved⟩ := StatusText.of_parse htext hlf
    exact ⟨.inl (wellFormed_ofStatus htag hwell), resolved_ofStatus hresolved⟩
  · rw [parseData_eq] at hdata
    obtain ⟨items, waits, hitems, rfl⟩ := of_ofScan_eq_complete hdata
    refine ⟨?_, rfl⟩
    rcases data_cases (Scan.wellFormed_of_run Nest.wellFormed_empty hitems) with
      hwell | ⟨s, more, condition, rfl, hs, hcondition⟩
    · exact .inl hwell
    · exact .inr ⟨s, more, condition, rfl, hs, hcondition⟩

/-- The first items of data that look like a status are taken for its condition. -/
theorem kind_write_of_looksLike? {s : Bytes} (hs : AtomText s) {condition : Condition}
    (h : Condition.ofWord? s = some condition) (items : List Item) (t : Bytes) :
    ∃ text, kind ((data (.atom s :: items)).write.concat ++ t)
      = .status untaggedTag condition text := by
  refine ⟨(Item.writeMore .inline items).concat ++ (Bytes.crlf ++ t), ?_⟩
  have hopen : Byte.openBracket ∉ s := by
    intro hmem
    rw [Condition.ofWord?_of_mem (by decide) hmem] at h
    cases h
  -- an atom without sections is a word
  have hword : ∀ b ∈ s, Line.endsWord b = false := by
    have hatom : Byte.openBracket ∈ Line.word (s ++ []) ∨ Line.word (s ++ []) = s :=
      word_atomText hs nofun
    rw [List.append_nil] at hatom
    have heq : Line.word s = s := by
      refine hatom.resolve_left fun hmem => hopen ?_
      exact (List.takeWhile_prefix _).subset hmem
    intro b hb
    rw [← heq] at hb
    exact Line.endsWord_of_mem_word hb
  rw [write, writeContent, Item.writeAll, Item.write, Segments.concat_append,
    Segments.concat_append, Segments.concat_append, Segments.concat_ofBytes,
    Segments.concat_ofBytes, Segments.concat_ofBytes, List.append_assoc, List.append_assoc,
    List.append_assoc]
  exact (kind_tag isTag_untaggedTag _).trans (afterTag_of_condition untaggedTag hword
    (fun _ => endsWord_head?_writeMore .inline items t) h)

/-- Whatever was read before and whatever follows, the response is read as itself after it has been
written. -/
def Relayed (config : Config) (r : Response) : Prop :=
  ∀ inData t, (grammar config).parse inData (r.write.concat ++ t) = (false, .ok (.complete r t))

/-- What is taken for a status is not read as data again. -/
theorem not_relayed_of_looksLike (config : Config) {s : Bytes} (hs : AtomText s)
    {condition : Condition} (h : Condition.ofWord? s = some condition) (items : List Item) :
    ¬(data (.atom s :: items)).Relayed config := by
  intro hrelayed
  obtain ⟨text, hkind⟩ := kind_write_of_looksLike? hs h items []
  have hread := congrArg Prod.snd (hrelayed false [])
  obtain ⟨content, rest, text', -, -, -, hunit⟩ :=
    of_parseStatus ((snd_parse_of_status hkind).symm.trans hread)
  rw [ofStatus, if_pos rfl] at hunit
  cases hunit

/-- A response that has been read can be passed on, unless it looks like a status. -/
theorem relayed_iff (config : Config) {inData inData' : Bool} {s rest : Bytes} {r : Response}
    (h : (grammar config).parse inData s = (inData', .ok (.complete r rest))) :
    r.Relayed config ↔ r.looksLike? = none := by
  have hparse : (parse config.limits.maxLiteralLength s).2 = .ok (.complete r rest) :=
    congrArg Prod.snd h
  obtain ⟨hwell | ⟨s, items, condition, rfl, hs, hcondition⟩, hresolved⟩ := of_parse hparse
  · refine iff_of_true ?_ (looksLike?_of_wellFormed hwell)
    intro inData t
    have hread := parse_writeContent_resolved hwell t
    rw [hresolved] at hread
    rw [write, Segments.concat_append, Segments.concat_ofBytes, List.append_assoc]
    exact hread
  · refine iff_of_false (not_relayed_of_looksLike config hs hcondition items) ?_
    show Condition.ofWord? s ≠ none
    rw [hcondition]
    exact Option.some_ne_none condition

/-- A code in another spelling with an argument behind a further space, and a bracket in the text;
and data with a section, a quoted string against it and a binary literal. -/
theorem relayed_uidnext :
    let done : Response := .tagged (Bytes.ascii "A1") {
      condition := .ok
      text := {
        code := some { token := .known "UIDNEXT", args := [.atom (Bytes.ascii "17")] }
        text := Bytes.ascii " [x" } }
    let fetched : Response := .data [.atom (Bytes.ascii "1"), .list [
      .atom (Bytes.ascii "BODY[]"), .quoted (Bytes.ascii "\""), .literal (Bytes.ascii "OK") true]]
    (grammar {}).parse false (Bytes.ascii "A1 ok [uidnext  17]  [x\r\n* ")
        = (false, .ok (.complete done (Bytes.ascii "* ")))
      ∧ (grammar {}).parse true (Bytes.ascii "*  1 (BODY[]\"\\\"\"~\x7b2\x7d\r\nOK)\r\n")
        = (false, .ok (.complete fetched []))
      ∧ done.Relayed {} ∧ fetched.Relayed {} := by
  intro done fetched
  have hdone : (grammar {}).parse false (Bytes.ascii "A1 ok [uidnext  17]  [x\r\n* ")
      = (false, .ok (.complete done (Bytes.ascii "* "))) := by decide +kernel
  have hfetched : (grammar {}).parse true
      (Bytes.ascii "*  1 (BODY[]\"\\\"\"~\x7b2\x7d\r\nOK)\r\n")
        = (false, .ok (.complete fetched [])) := by decide +kernel
  exact ⟨hdone, hfetched, (relayed_iff {} hdone).2 rfl, (relayed_iff {} hfetched).2 (by decide)⟩

/-- Behind a second space, or with a literal against it, the name of a condition is an item of data.
When they are written they become a status, whose line ends where the literal is announced. -/
theorem not_relayed_ok :
    let hi : Response := .data [.atom (Bytes.ascii "OK"), .atom (Bytes.ascii "hi")]
    let glued : Response := .data [.atom (Bytes.ascii "OK"), .literal (Bytes.ascii "abc") false]
    ((grammar {}).parse false (Bytes.ascii "*  OK hi\r\n") = (false, .ok (.complete hi []))
        ∧ (grammar {}).parse false hi.write.concat = (false, .ok (.complete
          (.untagged { condition := .ok, text := { text := Bytes.ascii "hi" } }) []))
        ∧ ¬hi.Relayed {})
      ∧ (grammar {}).parse false (Bytes.ascii "* OK\x7b3\x7d\r\nabc\r\n")
          = (false, .ok (.complete glued []))
        ∧ (grammar {}).parse false glued.write.concat = (false, .ok (.complete
          (.untagged { condition := .ok, text := { text := Bytes.ascii "\x7b3\x7d" } })
          (Bytes.ascii "abc\r\n")))
        ∧ ¬glued.Relayed {} := by
  intro hi glued
  have hatom : AtomText (Bytes.ascii "OK") := atomText_of_readAtom (by decide)
  have hcondition : Condition.ofWord? (Bytes.ascii "OK") = some .ok := by decide
  refine ⟨⟨by decide +kernel, by decide +kernel, ?_⟩, by decide +kernel, by decide +kernel, ?_⟩
  · exact not_relayed_of_looksLike {} hatom hcondition _
  · exact not_relayed_of_looksLike {} hatom hcondition _

end Response

end

end MailProtocol.Imap
