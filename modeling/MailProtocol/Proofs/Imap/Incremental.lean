import MailProtocol.Proofs.Imap.Heading
import MailProtocol.Proofs.Imap.Kind
import MailProtocol.Proofs.Imap.Scan
import MailProtocol.Proofs.Reception.Gathering

/-!
# Commands and responses as they arrive

Both grammars of IMAP are incremental: behind each line and each literal of a command or a response
they say exactly what comes next. So a receiver reads the same units from a stream, with the same
bytes, as are read from it when it is all there.
-/

namespace MailProtocol.Imap

variable {γ υ : Type} {G : Grammar γ υ}

/-- A unit is gathered along the layout of its items, if what comes before them stays on the first
line and does not change how they are read. -/
theorem gathers_of_layout {ofScan : Except Fault Scan → Except Malformed (Parsed υ)} {unit : υ}
    {items : List Item} {maxLiteral waits waits' : Nat} {nest : Nest} {ds : List Bytes} {s : Bytes}
    (hcomplete : ∀ t, ofScan (.ok (.complete items waits' t)) = .ok (.complete unit t))
    (hincomplete : ∀ needs, ofScan (.ok (.incomplete needs)) = .ok (.incomplete needs))
    (h : Scan.Layout maxLiteral items waits' nest waits ds s) {p before : Bytes}
    (hbefore : Byte.lf ∉ before)
    (hreads : ∀ l y : Bytes, l.IsLine → l <+: s →
      G.Reads (p ++ (before ++ (l ++ y))) (ofScan (Scan.run maxLiteral nest waits (l ++ y)))) :
    G.Gathers unit ds p (before ++ s) := by
  induction h generalizing p before with
  | @last _ _ l hl hrun =>
    refine .last (.append hbefore hl) fun t => ?_
    have hline := hreads l t hl (List.prefix_refl l)
    rw [hrun, hcomplete] at hline
    rw [List.append_assoc]
    exact hline
  | @literal nest _ waits _ l d s _ synchronising hl hmark hdata hs ih =>
    have hprefix : l <+: l ++ (d ++ s) := List.prefix_append l _
    have hmark' : G.Reads (p ++ (before ++ l))
        (.ok (.incomplete (.literal d.length synchronising))) := by
      have hline := hreads l [] hl hprefix
      rw [List.append_nil, hmark, hincomplete] at hline
      exact hline
    rw [← List.append_assoc]
    refine .literal (.append hbefore hl) hmark' (fun hd => ?_)
      (@ih _ [] List.not_mem_nil fun l' y hl' hl's => ?_)
    -- without a byte behind the data the scanner stands at the end of what is there
    · have hline := hreads l d hl hprefix
      rw [← List.append_nil d, hdata [] (by simpa using hd), Scan.run_nil, hincomplete,
        List.append_nil] at hline
      rw [List.append_assoc]
      exact hline
    -- behind the data it goes on with the next line
    · have hline := hreads l (d ++ (l' ++ y)) hl hprefix
      have hthere : d ++ (l' ++ y) ≠ [] :=
        List.append_ne_nil_of_right_ne_nil _ (List.append_ne_nil_of_left_ne_nil hl'.ne_nil y)
      rw [hdata _ hthere] at hline
      simpa only [List.append_assoc, List.nil_append] using hline

/-! ## Commands -/

namespace Command

/-- The contents of a command's literals, in the order in which they are written. -/
def literals (c : Command) : List Bytes := Item.literalsAll c.args

theorem of_ofScan_eq_complete {tag verb rest : Bytes} {uid : Bool} {result : Except Fault Scan}
    {c : Command} (h : ofScan tag uid verb result = .ok (.complete c rest)) :
    ∃ args waits, result = .ok (.complete args waits rest)
      ∧ c = { tag, verb, uid, args, continuation := 0 < waits } := by
  rcases result with fault | ⟨args, waits, rest'⟩ | needs
  · cases h
  · obtain ⟨rfl, rfl⟩ := by simpa only [ofScan, Except.ok.injEq, Parsed.complete.injEq] using h
    exact ⟨args, waits, rfl, rfl⟩
  · cases h

theorem of_ofScan_eq_incomplete {tag verb : Bytes} {uid : Bool} {result : Except Fault Scan}
    {needs : Needs} (h : ofScan tag uid verb result = .ok (.incomplete needs)) :
    result = .ok (.incomplete needs) := by
  rcases result with fault | ⟨args, waits, rest'⟩ | needs'
  · cases h
  · cases h
  · obtain rfl := by simpa only [ofScan, Except.ok.injEq, Parsed.incomplete.injEq] using h
    rfl

variable {tag verb text : Bytes} {uid : Bool}

/-- A command without arguments is gathered as one line. -/
theorem gathers_heading_crlf (config : Config) (h : Heading tag uid verb text) :
    (grammar config).Gathers { tag, verb, uid } [] [] (text ++ Bytes.crlf) := by
  refine .last (.append h.lf_notMem Bytes.isLine_crlf) fun t _ => ?_
  rw [List.nil_append, List.append_assoc]
  exact parse_heading_crlf h t

/-- A command with arguments is gathered along their layout. -/
theorem gathers_heading_space (config : Config) (h : Heading tag uid verb text) {args : List Item}
    {waits : Nat} {ds : List Bytes} {s : Bytes}
    (hlayout : Scan.Layout config.limits.maxLiteralLength args waits .empty 0 ds s) :
    (grammar config).Gathers { tag, verb, uid, args, continuation := 0 < waits } ds []
      (text ++ Byte.space :: s) := by
  have hbefore : Byte.lf ∉ text ++ [Byte.space] := by
    rw [List.mem_append, not_or]
    exact ⟨h.lf_notMem, by decide⟩
  have hcomplete (t : Bytes) : ofScan tag uid verb (.ok (.complete args waits t))
      = .ok (.complete { tag, verb, uid, args, continuation := 0 < waits } t) := rfl
  rw [List.append_cons]
  refine gathers_of_layout hcomplete (fun _ => rfl) hlayout hbefore fun l y _ _ _ => ?_
  rw [List.nil_append, ← List.append_cons]
  exact parse_heading_space h (l ++ y)

/-- Commands are gathered line by line and literal by literal. -/
theorem incremental_grammar (config : Config) : (grammar config).Incremental literals where
  gathers {g c rest unit} h := by
    have hparse : parse config.limits.maxLiteralLength (c ++ rest) = .ok (.complete unit rest) := h
    obtain ⟨tag, uid, verb, text, after, hheading, hfollows, hs⟩ := heading_of_parse hparse
    rw [hs] at hparse
    cases hfollows with
    | crlf rest' =>
      rw [parse_heading_crlf hheading] at hparse
      obtain ⟨rfl, rfl⟩ := by simpa only [Except.ok.injEq, Parsed.complete.injEq] using hparse
      rw [← List.append_assoc] at hs
      obtain rfl := List.append_cancel_right hs
      exact gathers_heading_crlf config hheading
    | space args =>
      rw [parse_heading_space hheading] at hparse
      obtain ⟨items, waits, hitems, rfl⟩ := of_ofScan_eq_complete hparse
      obtain ⟨c', ds, rfl, hlayout, hds⟩ := Scan.layout_of_run hitems
      rw [Nest.literals_empty, List.nil_append] at hds
      rw [← List.cons_append, ← List.append_assoc] at hs
      obtain rfl := List.append_cancel_right hs
      rw [literals, hds]
      exact gathers_heading_space config hheading hlayout
  announced {g p d n synchronising} h hd hne := by
    have hparse : parse config.limits.maxLiteralLength p
      = .ok (.incomplete (.literal n synchronising)) := h
    obtain ⟨tag, uid, verb, text, after, hheading, hfollows, rfl⟩ := heading_of_parse hparse
    intro g'
    show parse config.limits.maxLiteralLength _ = _
    cases hfollows with
    | crlf rest =>
      rw [parse_heading_crlf hheading] at hparse
      cases hparse
    | space args =>
      rw [parse_heading_space hheading] at hparse
      obtain ⟨-, hmore⟩ := Scan.run_append_of_announced (of_ofScan_eq_incomplete hparse) hd hne
      rw [List.append_assoc, List.cons_append, parse_heading_space hheading, Item.parse, hmore]
      rfl

end Command

/-! ## Responses -/

namespace Response

/-- The contents of a response's literals, in the order in which they are written. -/
def literals : Response → List Bytes
  | data items => Item.literalsAll items
  | tagged _ _ | untagged _ | continuation _ => []

theorem literals_ofStatus (tag : Bytes) (status : Status) :
    (ofStatus tag status).literals = [] := by
  unfold ofStatus
  split <;> rfl

theorem of_ofScan_eq_complete {rest : Bytes} {result : Except Fault Scan} {r : Response}
    (h : ofScan result = .ok (.complete r rest)) :
    ∃ items waits, result = .ok (.complete items waits rest) ∧ r = .data items := by
  rcases result with fault | ⟨items, waits, rest'⟩ | needs
  · cases h
  · obtain ⟨rfl, rfl⟩ := by simpa only [ofScan, Except.ok.injEq, Parsed.complete.injEq] using h
    exact ⟨items, waits, rfl, rfl⟩
  · cases h

theorem of_ofScan_eq_incomplete {result : Except Fault Scan} {needs : Needs}
    (h : ofScan result = .ok (.incomplete needs)) : result = .ok (.incomplete needs) := by
  rcases result with fault | ⟨items, waits, rest'⟩ | needs'
  · cases h
  · cases h
  · obtain rfl := by simpa only [ofScan, Except.ok.injEq, Parsed.incomplete.injEq] using h
    rfl

variable {maxLiteral : Nat}

/-- What is read as a response is a request to continue, a status or data, by its first words. -/
theorem kind_of_parse {s : Bytes} {p : Parsed Response} (h : (parse maxLiteral s).2 = .ok p) :
    (∃ rest, s = Byte.plus :: rest ∧ parseContinuation rest = .ok p)
      ∨ (∃ tag word after condition, IsTag tag ∧ (∀ b ∈ word, Line.endsWord b = false)
          ∧ (∀ b, after.head? = some b → Line.endsWord b = true)
          ∧ Condition.ofWord? word = some condition ∧ s = tag ++ Byte.space :: (word ++ after)
          ∧ parseStatus maxLiteral tag condition after = .ok p)
      ∨ ∃ rest, s = untaggedTag ++ Byte.space :: rest ∧ Condition.ofWord? (Line.word rest) = none
          ∧ parseData maxLiteral rest = .ok p := by
  rcases kind_cases s with ⟨rest, rfl⟩ | ⟨tag, rest, htag, rfl⟩ | ⟨report, hkind⟩
  · exact .inl ⟨rest, rfl, h⟩
  · right
    rcases afterTag_cases tag rest with ⟨condition, hcondition⟩ | ⟨rfl, hdata⟩ | ⟨report, hwrong⟩
    · left
      have hrest := Line.word_append_afterWord rest
      have hhead := fun b => Line.endsWord_of_head?_afterWord (s := rest) (b := b)
      have hkind := afterTag_of_condition tag (fun _ => Line.endsWord_of_mem_word) hhead hcondition
      rw [hrest, ← kind_tag htag] at hkind
      rw [snd_parse_of_status hkind] at h
      exact ⟨tag, _, _, condition, htag, fun _ => Line.endsWord_of_mem_word, hhead, hcondition,
        by rw [hrest], h⟩
    · right
      rw [snd_parse_of_data ((kind_tag htag rest).trans (afterTag_of_data hdata))] at h
      exact ⟨rest, rfl, hdata, h⟩
    · rw [snd_parse_of_wrong ((kind_tag htag rest).trans hwrong)] at h
      cases h
  · rw [snd_parse_of_wrong hkind] at h
    cases h

/-- Data are read as items. -/
theorem snd_parse_data {s : Bytes} (h : Condition.ofWord? (Line.word s) = none) :
    (parse maxLiteral (untaggedTag ++ Byte.space :: s)).2 = ofScan (Item.parse maxLiteral s) := by
  rw [← parseData_eq]
  exact snd_parse_of_data ((kind_tag isTag_untaggedTag s).trans (afterTag_of_data h))

/-- A request to continue is gathered as one line. -/
theorem gathers_continuation (config : Config) {content : Bytes} (hlf : Byte.lf ∉ content) :
    (grammar config).Gathers (.continuation (dropSpace content)) [] []
      (Byte.plus :: (content ++ Bytes.crlf)) := by
  refine .last (.cons (by decide) (.append hlf Bytes.isLine_crlf)) fun t _ => ?_
  rw [List.nil_append, List.cons_append, List.append_assoc]
  exact parseContinuation_line hlf t

/-- A status is gathered as one line. -/
theorem gathers_status (config : Config) {tag word content : Bytes} {condition : Condition}
    {text : StatusText} (htag : IsTag tag) (hword : ∀ b ∈ word, Line.endsWord b = false)
    (hhead : ∀ b, (content ++ Bytes.crlf).head? = some b → Line.endsWord b = true)
    (hcondition : Condition.ofWord? word = some condition) (hlf : Byte.lf ∉ content)
    (htext : StatusText.parse config.limits.maxLiteralLength content = .ok text) :
    (grammar config).Gathers (ofStatus tag { condition, text }) [] []
      (tag ++ Byte.space :: (word ++ (content ++ Bytes.crlf))) := by
  refine .last ?_ fun t _ => ?_
  · refine .append (Line.lf_notMem_of_endsWord htag.1.2) (.cons (by decide) ?_)
    exact .append (Line.lf_notMem_of_endsWord hword) (.append hlf Bytes.isLine_crlf)
  · have hhead' (b : UInt8) (hb : (content ++ (Bytes.crlf ++ t)).head? = some b) :
        Line.endsWord b = true := hhead b (by cases content <;> exact hb)
    have hkind := (kind_tag htag _).trans (afterTag_of_condition tag hword hhead' hcondition)
    have hline := parseStatus_line hlf htext tag condition t
    rw [← snd_parse_of_status hkind] at hline
    rw [List.nil_append, List.append_assoc, List.cons_append, List.append_assoc, List.append_assoc]
    exact hline

/-- Only data can be incomplete. -/
theorem data_of_parse {maxLiteral : Nat} {s : Bytes} {needs : Needs}
    (h : (parse maxLiteral s).2 = .ok (.incomplete needs)) :
    ∃ rest, s = untaggedTag ++ Byte.space :: rest ∧ Condition.ofWord? (Line.word rest) = none
      ∧ Item.parse maxLiteral rest = .ok (.incomplete needs) := by
  rcases kind_of_parse h with ⟨after, -, hcont⟩ |
    ⟨tag, word, after, condition, -, -, -, -, -, hstatus⟩ | ⟨after, hs, hdata, hitems⟩
  · obtain ⟨content, rest', -, -, hp⟩ := of_parseContinuation hcont
    cases hp
  · obtain ⟨content, rest', text, -, -, -, hp⟩ := of_parseStatus hstatus
    cases hp
  · rw [parseData_eq] at hitems
    exact ⟨after, hs, hdata, of_ofScan_eq_incomplete hitems⟩

/-- Data are gathered along their layout. -/
theorem gathers_data (config : Config) {items : List Item} {waits : Nat} {ds : List Bytes}
    {s : Bytes} (hlayout : Scan.Layout config.limits.maxLiteralLength items waits .empty 0 ds s)
    {rest : Bytes} (hdata : Condition.ofWord? (Line.word (s ++ rest)) = none) :
    (grammar config).Gathers (.data items) ds [] (untaggedTag ++ Byte.space :: s) := by
  have hcomplete (t : Bytes) : ofScan (.ok (.complete items waits t))
      = .ok (.complete (.data items) t) := rfl
  rw [List.append_cons]
  refine gathers_of_layout hcomplete (fun _ => rfl) hlayout (by decide)
    fun l y hl hprefix _ => ?_
  rw [List.nil_append, ← List.append_cons]
  -- the first word ends on the first line, so the lines after it cannot make it a condition
  obtain ⟨content, -, rfl⟩ := hl
  obtain ⟨c, rfl⟩ := hprefix
  have hlf : Byte.lf ∈ content ++ [Byte.lf] := by simp
  rw [List.append_assoc, (Line.word_append_of_lf_mem hlf _).1,
    ← (Line.word_append_of_lf_mem hlf y).1] at hdata
  exact snd_parse_data hdata

/-- Responses are gathered line by line and literal by literal. -/
theorem incremental_grammar (config : Config) : (grammar config).Incremental literals where
  gathers {g c rest unit} h := by
    have hparse : (parse config.limits.maxLiteralLength (c ++ rest)).2
      = .ok (.complete unit rest) := h
    rcases kind_of_parse hparse with ⟨after, hs, hcont⟩ |
      ⟨tag, word, after, condition, htag, hword, hhead, hcondition, hs, hstatus⟩ |
      ⟨after, hs, hdata, hitems⟩
    · obtain ⟨content, rest', hlf, rfl, hunit⟩ := of_parseContinuation hcont
      obtain ⟨rfl, rfl⟩ := by simpa only [Parsed.complete.injEq] using hunit
      rw [← List.append_assoc, ← List.cons_append] at hs
      obtain rfl := List.append_cancel_right hs
      exact gathers_continuation config hlf
    · obtain ⟨content, rest', text, hlf, rfl, htext, hunit⟩ := of_parseStatus hstatus
      obtain ⟨rfl, rfl⟩ := by simpa only [Parsed.complete.injEq] using hunit
      have hc : c = tag ++ Byte.space :: (word ++ (content ++ Bytes.crlf)) := by
        refine List.append_cancel_right (hs.trans ?_)
        simp only [List.append_assoc, List.cons_append]
      have hhead' (b : UInt8) (hb : (content ++ Bytes.crlf).head? = some b) :
          Line.endsWord b = true := hhead b (by cases content <;> exact hb)
      rw [literals_ofStatus, hc]
      exact gathers_status config htag hword hhead' hcondition hlf htext
    · rw [parseData_eq] at hitems
      obtain ⟨items, waits, hrun, rfl⟩ := of_ofScan_eq_complete hitems
      obtain ⟨c', ds, rfl, hlayout, hds⟩ := Scan.layout_of_run hrun
      rw [Nest.literals_empty, List.nil_append] at hds
      rw [← List.cons_append, ← List.append_assoc] at hs
      obtain rfl := List.append_cancel_right hs
      rw [literals, hds]
      exact gathers_data config hlayout hdata
  announced {g p d n synchronising} h hd hne := by
    have hparse : (parse config.limits.maxLiteralLength p).2
      = .ok (.incomplete (.literal n synchronising)) := h
    obtain ⟨after, rfl, hdata, hitems⟩ := data_of_parse hparse
    obtain ⟨hlf, hmore⟩ := Scan.run_append_of_announced hitems hd hne
    intro g'
    show (parse config.limits.maxLiteralLength _).2 = _
    rw [List.append_assoc, List.cons_append,
      snd_parse_data (by rw [(Line.word_append_of_lf_mem hlf d).1, hdata]), Item.parse, hmore]
    rfl

end Response

/-! ## Receiving -/

/-- However the bytes arrive, receivers of commands and of responses report the units that are read
from the same bytes all at once, and use none of the bytes that follow a unit. -/
theorem receivesOneShot (config : Config) {pieces : List Bytes} (hne : [] ∉ pieces) (chunk : Nat) :
    (Command.grammar config).ReceivesOneShot (Command.lawful_grammar config) Command.literals ()
        pieces chunk
      ∧ ∀ inData, (Response.grammar config).ReceivesOneShot (Response.lawful_grammar config)
        Response.literals inData pieces chunk :=
  ⟨(Command.incremental_grammar config).receives (Command.lawful_grammar config) () hne
      chunk,
    fun inData => (Response.incremental_grammar config).receives
      (Response.lawful_grammar config) inData hne chunk⟩

/-- A command with a literal that holds a line feed, and an empty one at the end of its line, is
received byte by byte as it is read all at once. -/
theorem receivesOneShot_login :
    let pieces := [Bytes.ascii "A LOGIN \x7b3\x7d\r\nj\n", Bytes.ascii "o \x7b0\x7d\r",
      Bytes.ascii "\n\r\nB NOOP\r\n"]
    let login : Command := {
      tag := Bytes.ascii "A", verb := Bytes.ascii "LOGIN", continuation := true
      args := [.literal (Bytes.ascii "j\no") false, .literal [] false] }
    let noop : Command := { tag := Bytes.ascii "B", verb := Bytes.ascii "NOOP" }
    [] ∉ pieces
      ∧ Delivery.accepted [(login, Bytes.ascii "B NOOP\r\n"), (noop, [])]
        <+: Delivery.results (Receiver.pump (Command.lawful_grammar {}) { state := () }
          (.ofStream (.ofPieces pieces) 1))
      ∧ ∃ c, pieces.flatten = c ++ Bytes.ascii "B NOOP\r\n"
        ∧ ∀ t, (Command.grammar {}).Reads (c ++ t) (.ok (.complete login t)) := by
  intro pieces login noop
  have hne : [] ∉ pieces := by decide
  have hreceives := (receivesOneShot {} hne 1).1
  have hnoop : (Command.grammar {}).OneShot Command.literals () [(noop, [])]
      (Bytes.ascii "B NOOP\r\n" ++ []) := by
    refine .cons ?_ ?_ (.nil [])
    · decide +kernel
    · decide +kernel
  have hlogin : (Command.grammar {}).OneShot Command.literals ()
      [(login, Bytes.ascii "B NOOP\r\n"), (noop, [])]
      (Bytes.ascii "A LOGIN \x7b3\x7d\r\nj\no \x7b0\x7d\r\n\r\n" ++ Bytes.ascii "B NOOP\r\n") := by
    refine .cons ?_ ?_ hnoop
    · decide +kernel
    · decide +kernel
  have hunits := hreceives.units _ hlogin
  obtain ⟨more, hmore⟩ := hunits
  exact ⟨hne, ⟨more, hmore⟩, hreceives.first _ _ (by rw [← hmore]; rfl)⟩

end MailProtocol.Imap
