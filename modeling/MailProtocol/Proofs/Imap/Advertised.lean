import MailProtocol.Proofs.Imap.AcceptedResponse
import MailProtocol.Proofs.Imap.Wire

/-!
# Advertised capabilities

A server lists its capabilities as data, or as the arguments of a code in front of a status text.
The two are written and read on different ways: data are read item by item up to the end of their
line, and a code is first cut out up to its closing bracket. Either way the client finds the same
capabilities, in the order in which they were listed and with their duplicates
(`advertises_capabilities`).

A name that can be listed is an atom and stays one in a code (`Capability.IsName`).
-/

namespace MailProtocol.Imap

/-! ## Names -/

namespace Capability

/-- Bytes that mean something else in a row of items or in a code. -/
def reserved : Bytes :=
  [Byte.space, Byte.cr, Byte.lf, Byte.openParen, Byte.closeParen, Byte.quote, Byte.openBrace,
    Byte.openBracket, Byte.closeBracket]

/-- The name can be listed: it is not empty, is not taken for an absent item, and has no byte that
means something else. -/
structure IsName (name : Bytes) : Prop where
  ne_nil : name ≠ []
  notNil : Bytes.eqIgnoreCase name (Bytes.ascii "NIL") = false
  free : ∀ b ∈ name, b ∉ reserved

/-- The capabilities of these names, in order. -/
def ofNames (names : List Bytes) : List Token := names.map fun name => ofName (Utf8.readLossy name)

/-- Each name as an item. -/
def listed (names : List Bytes) : List Item := names.map .atom

/-- Names that are text are resolved as they are. -/
theorem ofNames_encode (names : List String) :
    ofNames (names.map Utf8.encode) = names.map ofName := by
  rw [ofNames, List.map_map]
  refine List.map_congr_left fun name _ => ?_
  rw [Function.comp_apply, Utf8.readLossy_encode]

/-- The capabilities that are read from listed names are those of the names. -/
theorem ofItems_listed (names : List Bytes) : ofItems (listed names) = ofNames names := by
  rw [ofItems, listed, List.filterMap_map]
  exact congrFun List.filterMap_eq_map names

namespace IsName

variable {name : Bytes}

/-- A name is an atom. -/
theorem atomText (h : IsName name) : AtomText name := by
  have hfree := h.free
  clear h
  induction name with
  | nil => exact .nil
  | cons b s ih =>
    rw [List.forall_mem_cons] at hfree
    have hb : b ∉ reserved := hfree.1
    simp only [reserved, List.mem_cons, List.not_mem_nil, or_false, not_or] at hb
    obtain ⟨hspace, hcr, hlf, hopen, hclose, hquote, hbrace, hbracket, -⟩ := hb
    have hends : endsAtom b = false := by
      simp [endsAtom, hspace, hcr, hlf, hopen, hclose, hquote, hbrace]
    exact .byte hends hbracket (ih hfree.2)

theorem closeBracket_notMem (h : IsName name) : Byte.closeBracket ∉ name := by
  intro hmem
  exact h.free _ hmem (by decide)

theorem wellFormed (h : IsName name) (maxLiteral : Nat) : (Item.atom name).WellFormed maxLiteral :=
  ⟨h.ne_nil, h.atomText, h.notNil⟩

theorem inCode (h : IsName name) : (Item.atom name).InCode where
  noLiteral := by simp [Item.hasLiteral]
  noBracket := by
    rw [Item.write, Segments.concat_ofBytes]
    exact h.closeBracket_notMem

end IsName

theorem allWellFormed_listed {names : List Bytes} (h : ∀ name ∈ names, IsName name)
    (maxLiteral : Nat) : Item.AllWellFormed maxLiteral (listed names) := by
  induction names with
  | nil => trivial
  | cons name names ih =>
    rw [List.forall_mem_cons] at h
    exact ⟨h.1.wellFormed maxLiteral, ih h.2⟩

theorem allInCode_listed {names : List Bytes} (h : ∀ name ∈ names, IsName name) :
    Item.AllInCode (listed names) := by
  induction names with
  | nil => exact Item.allInCode_nil
  | cons name names ih =>
    rw [List.forall_mem_cons] at h
    exact .cons h.1.inCode (ih h.2)

theorem literalsAll_listed (names : List Bytes) : Item.literalsAll (listed names) = [] := by
  induction names with
  | nil => rfl
  | cons name names ih =>
    show Item.literals (.atom name) ++ Item.literalsAll (listed names) = []
    rw [ih, Item.literals, List.append_nil]

end Capability

open Capability (IsName ofNames listed)

/-! ## The two ways -/

/-- A status text behind a code that lists these names. -/
def StatusText.listing (names : List Bytes) (text : Bytes) : StatusText where
  code := some { token := ResponseCode.capability, args := listed names }
  text := text

theorem StatusText.wellFormed_listing {names : List Bytes} (h : ∀ name ∈ names, IsName name)
    {text : Bytes} (htext : Byte.lf ∉ text) (maxLiteral : Nat) :
    (listing names text).WellFormed maxLiteral where
  text := htext
  code c hc := by
    obtain rfl := Option.some.inj hc
    have hargs := Capability.allInCode_listed h
    have hname : ResponseCode.capability.name = "CAPABILITY" := rfl
    exact {
      name_ne := by simp [hname]
      name := by simp [hname]
      args := Capability.allWellFormed_listed h maxLiteral
      noLiteral := hargs.noLiteral
      noBracket := hargs.noBracket }
  noCode := nofun

namespace Response

/-- Data that list these names. -/
def listing (names : List Bytes) : Response := data (.atom capabilityWord :: listed names)

theorem isName_capabilityWord : IsName capabilityWord where
  ne_nil := by decide
  notNil := by decide
  free := by decide +kernel

theorem wellFormed_listing {names : List Bytes} (h : ∀ name ∈ names, IsName name)
    (maxLiteral : Nat) : (listing names).WellFormed maxLiteral := by
  refine .data ⟨isName_capabilityWord.wellFormed maxLiteral,
    Capability.allWellFormed_listed h maxLiteral⟩ fun s hs condition => ?_
  obtain rfl : capabilityWord = s := Item.atom.inj (Option.some.inj hs)
  cases condition <;> decide +kernel

theorem capabilities?_listing (names : List Bytes) :
    (listing names).resolved.capabilities? = some (ofNames names) := by
  have hword : Bytes.eqIgnoreCase capabilityWord capabilityWord = true := beq_self_eq_true _
  rw [listing, resolved, capabilities?, if_pos hword, Capability.ofItems_listed]

/-- The capabilities of a status whose code lists names, after it has been read back. -/
theorem capabilities?_of_status? {r : Response} {condition : Condition} {names : List Bytes}
    {text : Bytes} (h : r.status? = some { condition, text := .listing names text }) :
    r.resolved.capabilities? = some (ofNames names) := by
  have hsame : (ResponseCode.ofName ResponseCode.capability.name).same ResponseCode.capability
      = true := ResponseCode.registry.same_lookupOrCreate ResponseCode.capability
  rw [← Capability.ofItems_listed]
  cases r with
  | tagged tag status | untagged status =>
    obtain rfl := Option.some.inj h
    simp only [resolved, Status.resolved, StatusText.resolved, StatusText.listing, Option.map_some,
      Code.resolved, capabilities?, Option.bind_eq_bind, Option.bind_some, hsame, if_true]
  | data | continuation => cases h

/-- The client reads responses under this tag. -/
def IsReadTag (maxLiteral : Nat) (tag : Bytes) : Prop :=
  ∃ s status rest, (parse maxLiteral s).2 = .ok (.complete (.tagged tag status) rest)

/-- A tag under which one response is read can stand in front of any other. -/
theorem IsReadTag.isTag {maxLiteral : Nat} {tag : Bytes} (h : IsReadTag maxLiteral tag) :
    IsTag tag ∧ tag ≠ untaggedTag := by
  obtain ⟨s, status, rest, hparse⟩ := h
  rcases (of_parse hparse).1 with hwell | ⟨_, _, _, hdata, -⟩
  · cases hwell with
    | tagged htag hne => exact ⟨htag, hne⟩
  · cases hdata

/-! ## What a client finds -/

/-- The response is written as one line, and whatever follows it and was read before, the client
reads a response that lists these capabilities. -/
structure Advertises (config : Config) (r : Response) (capabilities : List Token) : Prop where
  unasked : r.write.rest = []
  isLine : r.write.first.IsLine
  read : ∀ inData t, ∃ r', (grammar config).parse inData (r.write.first ++ t)
      = (false, .ok (.complete r' t)) ∧ r'.capabilities? = some capabilities

/-- A well-formed response without literals is a line that is read back. -/
theorem WellFormed.advertises {config : Config} {r : Response}
    (h : r.WellFormed config.limits.maxLiteralLength) (hliterals : r.literals = [])
    {capabilities : List Token} (hcapabilities : r.resolved.capabilities? = some capabilities) :
    r.Advertises config capabilities := by
  have hread (inData : Bool) (t : Bytes) : (grammar config).parse inData (r.write.first ++ t)
      = (false, .ok (.complete r.resolved t)) := by
    rw [← concat_write, write, Segments.concat_append, Segments.concat_ofBytes, List.append_assoc]
    exact parse_writeContent_resolved h t
  refine ⟨rest_write r, ?_, fun inData t => ⟨r.resolved, hread inData t, hcapabilities⟩⟩
  -- what is gathered without a literal is gathered as one line
  have hgathers := (incremental_grammar config).gathers (congrArg Prod.snd (hread false []))
  rw [r.same_resolved.literals_eq, hliterals] at hgathers
  cases hgathers with
  | last hline => exact hline

/-- Names that can be listed are found by the client in their order, with their duplicates, and
resolved as they are known beforehand, whether they come as data, or in the code of an untagged or a
tagged status, with any condition and any text on its line. -/
theorem advertises_capabilities (config : Config) {names : List Bytes}
    (hnames : ∀ name ∈ names, IsName name) {tag : Bytes}
    (htag : IsReadTag config.limits.maxLiteralLength tag) (condition : Condition) {text : Bytes}
    (htext : Byte.lf ∉ text) :
    (listing names).Advertises config (ofNames names)
      ∧ (untagged { condition, text := .listing names text }).Advertises config (ofNames names)
      ∧ (tagged tag { condition, text := .listing names text }).Advertises config (ofNames names)
      ∧ ∀ texts : List String, names = texts.map Utf8.encode →
        ofNames names = texts.map Capability.ofName := by
  have hstatus : (StatusText.listing names text).WellFormed config.limits.maxLiteralLength :=
    StatusText.wellFormed_listing hnames htext _
  refine ⟨?_, ?_, ?_, ?_⟩
  · have hliterals : (listing names).literals = [] := Capability.literalsAll_listed (_ :: names)
    exact (wellFormed_listing hnames _).advertises hliterals (capabilities?_listing names)
  · exact WellFormed.advertises (.untagged hstatus) rfl (capabilities?_of_status? rfl)
  · obtain ⟨hword, hne⟩ := htag.isTag
    exact WellFormed.advertises (.tagged hword hne hstatus) rfl (capabilities?_of_status? rfl)
  · rintro texts rfl
    exact Capability.ofNames_encode texts

/-- A name in two spellings, and one that nobody has heard of, before a text with a bracket. -/
theorem advertises_capabilities_imap4rev1 :
    let names := [Bytes.ascii "imap4rev1", Bytes.ascii "X-NEW=~1*", Bytes.ascii "IMAP4REV1"]
    let tag := Bytes.ascii "A1"
    let text := Bytes.ascii "ready]"
    let limit := ({} : Config).limits.maxLiteralLength
    let found := [Token.known "IMAP4rev1", Token.fresh "X-NEW=~1*", Token.known "IMAP4rev1"]
    (∀ name ∈ names, IsName name) ∧ IsReadTag limit tag ∧ Byte.lf ∉ text
      ∧ (listing names).Advertises {} found
      ∧ (untagged { condition := .ok, text := .listing names text }).Advertises {} found
      ∧ (tagged tag { condition := .ok, text := .listing names text }).Advertises {} found := by
  intro names tag text limit found
  have hnames : ∀ name ∈ names, IsName name := by
    have hall : ∀ name ∈ names, name ≠ [] ∧ Bytes.eqIgnoreCase name (Bytes.ascii "NIL") = false
        ∧ ∀ b ∈ name, b ∉ Capability.reserved := by
      decide +kernel
    exact fun name hname => ⟨(hall name hname).1, (hall name hname).2.1, (hall name hname).2.2⟩
  have htag : IsReadTag limit tag := ⟨Bytes.ascii "A1 OK\r\n", ⟨.ok, {}⟩, [], by decide +kernel⟩
  have htext : Byte.lf ∉ text := by decide +kernel
  have hfound : ofNames names = found := by decide +kernel
  obtain ⟨hdata, huntagged, htagged, -⟩ := advertises_capabilities {} hnames htag .ok htext
  rw [hfound] at hdata huntagged htagged
  exact ⟨hnames, htag, htext, hdata, huntagged, htagged⟩

end Response

end MailProtocol.Imap
