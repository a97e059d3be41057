import MailProtocol.Proofs.Bytes.Words
import MailProtocol.Proofs.Pop3.Framing
import MailProtocol.Proofs.Text.Utf8

/-!
# Written lines are read back

A server reads a command as the client that wrote it meant it (`Command.answer_write`). A client
reads a response as the server meant it if that response is due (`Due.exists_answer`): a status, and
then a line or the end of a body if the status has begun one. Only the code of a status may come
back in another spelling (`Response.Same`), the one in which it is registered
(`StatusText.resolved`).

What a client keeps in mind from line to line is just what is due (`Due.reading`).
-/

namespace MailProtocol

/-! ## Words and fields of a line -/

namespace Bytes

/-- The first word ends at the first space, or with the string. -/
theorem splitWord_append {w : Bytes} (hw : Byte.space ∉ w) {t : Bytes}
    (ht : t = [] ∨ t.head? = some Byte.space) : (w ++ t).splitWord = (w, t.drop 1) := by
  obtain ⟨htake, hdrop⟩ := takeWhile_ne_append hw ht
  rw [splitWord, htake, hdrop]

/-- Fields that have been put after spaces are found again. -/
theorem fields_intercalate {delimiter : UInt8} {fs : List Bytes}
    (hfs : ∀ f ∈ fs, f ≠ [] ∧ delimiter ∉ f) :
    fields ([delimiter].intercalate fs) delimiter = fs := by
  rcases fs with _ | ⟨f, fs⟩
  · rfl
  · rw [fields, List.splitOn_intercalate delimiter (fun l hl => (hfs l hl).2) (by simp)]
    exact List.filter_eq_self.2 fun l hl => by simpa using (hfs l hl).1

end Bytes

namespace Pop3

/-! ## Commands -/

namespace Command

/-- The command can be written so that it is read as itself. A password may hold spaces, and so it
is the only argument of its command. -/
structure WellFormed (c : Command) : Prop where
  verb_ne : c.verb ≠ []
  verb : Byte.space ∉ c.verb ∧ Byte.lf ∉ c.verb
  args : ∀ a ∈ c.args, a ≠ [] ∧ Byte.lf ∉ a
  spaces : c.isVerb "PASS" = false → ∀ a ∈ c.args, Byte.space ∉ a
  password : c.isVerb "PASS" = true → c.args.length ≤ 1

/-- The command is well-formed, and its line is not too long. -/
structure Fits (limits : Limits) (c : Command) : Prop where
  wellFormed : c.WellFormed
  line : c.write.concat.length ≤ limits.maxLineLength

/-- The arguments as they are written. -/
def writeArgs (c : Command) : Bytes := c.args.flatMap (Byte.space :: ·)

theorem concat_write (c : Command) : c.write.concat = c.verb ++ c.writeArgs ++ Bytes.crlf :=
  Segments.concat_ofBytes _

/-- A command is sent at once. -/
theorem first_write (c : Command) : c.write.first = c.write.concat :=
  (Segments.concat_ofBytes _).symm

theorem flatMap_space_cons (a : Bytes) (as : List Bytes) :
    (a :: as).flatMap (Byte.space :: ·) = Byte.space :: [Byte.space].intercalate (a :: as) := by
  induction as generalizing a with
  | nil => simp
  | cons b as ih =>
    rw [List.flatMap_cons, ih]
    simp

namespace WellFormed

variable {c : Command}

theorem lf_notMem (h : c.WellFormed) : Byte.lf ∉ c.verb ++ c.writeArgs := by
  rw [List.mem_append, not_or, writeArgs, List.mem_flatMap]
  refine ⟨h.verb.2, ?_⟩
  rintro ⟨a, ha, hmem⟩
  exact List.not_mem_cons_of_ne_of_not_mem (by decide) (h.args a ha).2 hmem

theorem isLine (h : c.WellFormed) : c.write.concat.IsLine := by
  rw [concat_write]
  exact .append h.lf_notMem Bytes.isLine_crlf

/-- The arguments are read back. -/
theorem argsOf_writeArgs (h : c.WellFormed) : argsOf c.verb (c.writeArgs.drop 1) = c.args := by
  have hsame : isVerb { verb := c.verb } "PASS" = c.isVerb "PASS" := rfl
  rw [argsOf, hsame, writeArgs]
  rcases hargs : c.args with _ | ⟨a, as⟩
  · cases c.isVerb "PASS" <;> rfl
  · rw [flatMap_space_cons, List.drop_succ_cons, List.drop_zero]
    cases hpass : c.isVerb "PASS" with
    | true =>
      -- the password reaches to the end of the line
      have hlength := h.password hpass
      have hne := (h.args a (hargs ▸ List.mem_cons_self)).1
      rw [hargs, List.length_cons] at hlength
      obtain rfl : as = [] := List.length_eq_zero_iff.1 (by omega)
      simpa using hne
    | false =>
      refine Bytes.fields_intercalate fun f hf => ?_
      rw [← hargs] at hf
      exact ⟨(h.args f hf).1, h.spaces hpass f hf⟩

/-- A command is read back, whatever follows it. -/
theorem parse_write_append (h : c.WellFormed) (t : Bytes) :
    parse (c.write.concat ++ t) = .ok (.complete c t) := by
  have hfirst : Line.first (c.write.concat ++ t) = .ok (c.verb ++ c.writeArgs, t) :=
    Line.first_eq_ok_iff.2 ⟨h.lf_notMem, by rw [concat_write, List.append_assoc]⟩
  have hspaced : c.writeArgs = [] ∨ c.writeArgs.head? = some Byte.space := by
    rw [writeArgs]
    rcases c.args with _ | ⟨a, as⟩
    · exact .inl rfl
    · exact .inr rfl
  have hverb : c.verb.isEmpty = false := List.isEmpty_eq_false_iff.2 h.verb_ne
  rw [parse, hfirst]
  simp only [Bytes.splitWord_append h.verb.1 hspaced, hverb, Bool.false_eq_true, if_false,
    h.argsOf_writeArgs]

theorem parse_write (h : c.WellFormed) : parse c.write.concat = .ok (.complete c []) := by
  have hparse := h.parse_write_append []
  rwa [List.append_nil] at hparse

end WellFormed

/-- A command is what its line gives. -/
theorem answer_write {config : Config} {c : Command} (h : c.Fits config.limits) :
    (grammar config).answer () c.write.concat = (some (.ok c), ()) := by
  have hparse : (grammar config).parse () c.write.concat = ((), .ok (.complete c [])) :=
    congrArg (Prod.mk ()) h.wellFormed.parse_write
  exact Grammar.answer_of_parse h.line hparse

/-- The lines of commands in a row. -/
def lines (cs : List Command) : List Bytes := cs.map fun c => c.write.concat

/-- Commands in a row are what their lines give. -/
theorem lines_read {config : Config} {cs : List Command}
    (h : ∀ c ∈ cs, c.Fits config.limits) : (grammar config).Lines () (lines cs) cs where
  lineLocal := lineLocal_grammar config
  isLine := List.forall_mem_map.2 fun c hc => (h c hc).wellFormed.isLine
  answers := by
    induction cs with
    | nil => rfl
    | cons c cs ih =>
      rw [List.forall_mem_cons] at h
      rw [lines, List.map_cons, Grammar.answers, answer_write h.1]
      exact congrArg (.ok c :: ·) (ih h.2)

end Command

/-! ## Responses -/

/-- The same text, and a code that is the same, perhaps in another spelling. -/
structure StatusText.Same (s t : StatusText) : Prop where
  code : Option.Rel (fun c d => c.same d = true) s.code t.code
  text : s.text = t.text

/-- The text as it is read back, with its code in the spelling that is registered. -/
def StatusText.resolved (s : StatusText) : StatusText :=
  { s with code := s.code.map fun c => ResponseCode.ofName c.name }

theorem StatusText.same_resolved (s : StatusText) : s.resolved.Same s := by
  obtain ⟨code, text⟩ := s
  refine ⟨?_, rfl⟩
  cases code with
  | none => exact .none
  | some c => exact .some (ResponseCode.registry.same_lookupOrCreate c)

/-- The text stays on its line, and does not look as if a code came first if there is none. -/
structure StatusText.WellFormed (s : StatusText) : Prop where
  text : Byte.lf ∉ s.text
  code : ∀ c, s.code = some c → c.name ≠ "" ∧ ∀ x ∈ c.name.toList, x ≠ ']' ∧ x ≠ '\n'
  noCode : s.code = none → s.text.head? ≠ some Byte.openBracket

namespace StatusText

/-- A text after the space that sets it off, or nothing if there is no text. -/
def spaced (text : Bytes) : Bytes := if text.isEmpty then [] else Byte.space :: text

/-- What is written after the indicator of a status. -/
def written (s : StatusText) : Bytes :=
  (s.code.map fun code =>
    Byte.space :: Byte.openBracket :: Utf8.encode code.name ++ [Byte.closeBracket]).getD []
    ++ spaced s.text

theorem written_none (text : Bytes) : written { text } = spaced text := rfl

theorem written_some (c : Token) (text : Bytes) : written { code := some c, text }
    = Byte.space :: Byte.openBracket
      :: (Utf8.encode c.name ++ Byte.closeBracket :: spaced text) := by
  simp [written]

/-- What is written after the indicator is set off from it. -/
theorem spaced_written (s : StatusText) :
    s.written = [] ∨ s.written.head? = some Byte.space := by
  obtain ⟨_ | c, text⟩ := s
  · cases text with
    | nil => exact .inl rfl
    | cons b text => exact .inr rfl
  · rw [written_some]
    exact .inr rfl

namespace WellFormed

variable {s : StatusText}

theorem lf_notMem_written (h : s.WellFormed) : Byte.lf ∉ s.written := by
  obtain ⟨code, text⟩ := s
  have htext : Byte.lf ∉ spaced text := by
    unfold spaced
    split
    · exact List.not_mem_nil
    · exact List.not_mem_cons_of_ne_of_not_mem (by decide) h.text
  cases code with
  | none => exact htext
  | some c =>
    rw [written_some, List.mem_cons, List.mem_cons, List.mem_append, List.mem_cons, not_or, not_or,
      not_or, not_or]
    refine ⟨by decide, by decide, ?_, by decide, htext⟩
    exact Utf8.notMem_encode (c := '\n') rfl (by decide) fun x hx => ((h.code c rfl).2 x hx).2

/-- The text of a status is read back, perhaps with another spelling of its code. -/
theorem parseText_written (h : s.WellFormed) :
    Response.parseText (s.written.drop 1) = .ok s.resolved := by
  obtain ⟨code, text⟩ := s
  cases code with
  | none =>
    have hdrop : (spaced text).drop 1 = text := by cases text <;> rfl
    rw [written_none, hdrop, Response.parseText]
    · rfl
    · rintro inner rfl
      exact h.noCode rfl rfl
  | some c =>
    have hname := h.code c rfl
    have hbracket : Byte.closeBracket ∉ Utf8.encode c.name :=
      Utf8.notMem_encode (c := ']') rfl (by decide) fun x hx => (hname.2 x hx).1
    obtain ⟨htake, hdrop⟩ := Bytes.takeWhile_ne_append hbracket
      (t := Byte.closeBracket :: spaced text) (.inr rfl)
    have hne : (Utf8.encode c.name).isEmpty = false :=
      List.isEmpty_eq_false_iff.2 (Utf8.encode_ne_nil hname.1)
    rw [written_some, List.drop_succ_cons, List.drop_zero]
    unfold Response.parseText
    split
    · next inner hinner =>
      obtain rfl : _ = inner := List.tail_eq_of_cons_eq hinner
      simp only [htake, hdrop, hne, Utf8.readLossy_encode, Bool.false_eq_true, if_false]
      cases text <;> rfl
    · next hinner => exact absurd rfl (hinner _)

end WellFormed

end StatusText

namespace Indicator

theorem ofWord?_word (i : Indicator) : ofWord? i.word = some i := by
  cases i <;> decide

theorem space_notMem_word (i : Indicator) : Byte.space ∉ i.word := by
  cases i <;> decide

theorem lf_notMem_word (i : Indicator) : Byte.lf ∉ i.word := by
  cases i <;> decide

end Indicator

/-! ## Lines of a body -/

theorem stuff_dot (line : Bytes) : stuff (Byte.dot :: line) = Byte.dot :: Byte.dot :: line := rfl

theorem stuff_of_head? {line : Bytes} (h : line.head? ≠ some Byte.dot) : stuff line = line := by
  rcases line with _ | ⟨b, line⟩
  · rfl
  · have hb : Byte.dot ≠ b := fun hb => h (congrArg some hb.symm)
    simp [stuff, Bytes.startsWith, hb]

/-- A line of a body is not taken for its end. -/
theorem stuff_ne_dot (line : Bytes) : stuff line ≠ [Byte.dot] := by
  by_cases h : line.head? = some Byte.dot
  · obtain ⟨line, rfl⟩ := List.head?_eq_some_iff.1 h
    rw [stuff_dot]
    simp
  · rw [stuff_of_head? h]
    rintro rfl
    exact h rfl

/-- The reader takes off the dot that has been added. -/
theorem unstuff_stuff (line : Bytes) : unstuff (stuff line) = line := by
  by_cases h : line.head? = some Byte.dot
  · obtain ⟨line, rfl⟩ := List.head?_eq_some_iff.1 h
    rfl
  · rw [stuff_of_head? h, unstuff]
    rintro line rfl
    exact h rfl

namespace Response

/-- Equal responses, but for the spelling of a code. -/
inductive Same : Response → Response → Prop
  | status (indicator : Indicator) {s t : StatusText} (h : s.Same t) :
    Same (.status indicator s) (.status indicator t)
  | continuation (text : Bytes) : Same (.continuation text) (.continuation text)
  | line (content : Bytes) : Same (.line content) (.line content)
  | termination : Same .termination .termination

/-- The response can be written so that it is read as itself where it is due. -/
def WellFormed : Response → Prop
  | status _ text => text.WellFormed
  | continuation text => Byte.lf ∉ text
  | line content => Byte.lf ∉ content
  | termination => True

/-- The response is well-formed, and its line is not too long. -/
structure Fits (limits : Limits) (r : Response) : Prop where
  wellFormed : r.WellFormed
  line : r.write.concat.length ≤ limits.maxLineLength

theorem concat_write (r : Response) : r.write.concat = r.writeContent ++ Bytes.crlf :=
  Segments.concat_ofBytes _

/-- A response is sent at once. -/
theorem first_write (r : Response) : r.write.first = r.write.concat :=
  (Segments.concat_ofBytes _).symm

theorem writeContent_status (indicator : Indicator) (text : StatusText) :
    writeContent (.status indicator text) = indicator.word ++ text.written :=
  List.append_assoc _ _ _

theorem WellFormed.lf_notMem {r : Response} (h : r.WellFormed) : Byte.lf ∉ r.writeContent := by
  cases r with
  | status indicator text =>
    rw [writeContent_status, List.mem_append, not_or]
    exact ⟨indicator.lf_notMem_word, h.lf_notMem_written⟩
  | continuation text =>
    exact List.not_mem_cons_of_ne_of_not_mem (by decide)
      (List.not_mem_cons_of_ne_of_not_mem (by decide) h)
  | line content =>
    rw [writeContent, stuff]
    split
    · exact List.not_mem_cons_of_ne_of_not_mem (by decide) h
    · exact h
  | termination => decide

theorem WellFormed.isLine {r : Response} (h : r.WellFormed) : r.write.concat.IsLine := by
  rw [concat_write]
  exact .append h.lf_notMem Bytes.isLine_crlf

/-- The lines of responses in a row. -/
def lines (us : List Response) : List Bytes := us.map fun u => u.write.concat

/-- A line is read by its content, whatever follows it. -/
theorem parse_write_append {r : Response} (h : r.WellFormed) {reading reading' : Reading}
    {unit : Response} (hline : parseLine reading r.writeContent = (reading', .ok unit))
    (t : Bytes) :
    parse reading (r.write.concat ++ t) = (reading', .ok (.complete unit t)) := by
  have hfirst : Line.first (r.write.concat ++ t) = .ok (r.writeContent, t) :=
    Line.first_eq_ok_iff.2 ⟨h.lf_notMem, by rw [concat_write, List.append_assoc]⟩
  rw [parse, hfirst]
  simp only [hline]

theorem parse_write {r : Response} (h : r.WellFormed) {reading reading' : Reading}
    {unit : Response} (hline : parseLine reading r.writeContent = (reading', .ok unit)) :
    parse reading r.write.concat = (reading', .ok (.complete unit [])) := by
  have hparse := parse_write_append h hline []
  rwa [List.append_nil] at hparse

/-- A status is read by its words, and what is kept in mind then. -/
theorem parseStatus_write (expectsBody : Bool) (indicator : Indicator) {text : StatusText}
    (h : text.WellFormed) :
    parseStatus expectsBody (writeContent (.status indicator text))
      = ({ inBody := expectsBody && indicator = .positive },
        .ok (.status indicator text.resolved)) := by
  have hword := Bytes.splitWord_append indicator.space_notMem_word text.spaced_written
  rw [writeContent_status, parseStatus, hword]
  simp only [indicator.ofWord?_word, h.parseText_written]

theorem writeContent_status_ne_dot (indicator : Indicator) (text : StatusText) :
    writeContent (.status indicator text) ≠ [Byte.dot] := by
  rw [writeContent_status]
  cases indicator <;> simp [Indicator.word, Indicator.name, Bytes.ascii]

end Response

/-! ## What is due -/

/-- What has to come next from a server. -/
inductive Due where
  | nothing
  /-- A status, which begins a body if it is positive and one is expected. -/
  | status (expectsBody : Bool)
  /-- A line of a body, or its end. -/
  | body
deriving DecidableEq, Repr

namespace Due

/-- The response is due. -/
def allows : Due → Response → Bool
  | status _, .status _ _ => true
  | body, .line _ => true
  | body, .termination => true
  | _, _ => false

/-- What is due after a response. -/
def after : Due → Response → Due
  | status true, .status .positive _ => body
  | status _, .status _ _ => nothing
  | body, .termination => nothing
  | due, _ => due

/-- What is due after these responses. -/
def afterAll (d : Due) (us : List Response) : Due := us.foldl after d

/-- Each of these responses is due after those before it. -/
def AllowsAll : Due → List Response → Prop
  | _, [] => True
  | d, u :: us => d.allows u = true ∧ (d.after u).AllowsAll us

/-- What a client keeps in mind while this is due. -/
def reading : Due → Response.Reading
  | nothing => {}
  | status expectsBody => { expectsBody }
  | body => { inBody := true }

theorem afterAll_append (d : Due) (us vs : List Response) :
    d.afterAll (us ++ vs) = (d.afterAll us).afterAll vs := List.foldl_append

theorem allowsAll_append {d : Due} {us vs : List Response} :
    d.AllowsAll (us ++ vs) ↔ d.AllowsAll us ∧ (d.afterAll us).AllowsAll vs := by
  induction us generalizing d with
  | nil => simp [AllowsAll, afterAll]
  | cons u us ih =>
    rw [List.cons_append, AllowsAll, ih, AllowsAll, and_assoc]
    rfl

theorem AllowsAll.take {d : Due} {us : List Response} (h : d.AllowsAll us) (n : Nat) :
    d.AllowsAll (us.take n) := by
  rw [← List.take_append_drop n us] at h
  exact (allowsAll_append.1 h).1

/-- Where nothing is due, no response is. -/
theorem eq_nil_of_nothing {us : List Response} (h : nothing.AllowsAll us) : us = [] := by
  cases us with
  | nil => rfl
  | cons u us => cases h.1

/-- Of equal responses one is due if the other one is, and the same is due after them. -/
theorem after_of_same {u v : Response} (h : u.Same v) (d : Due) : d.after u = d.after v := by
  cases h with
  | status indicator _ =>
    rcases d with _ | (_ | _) | _ <;> cases indicator <;> rfl
  | continuation text | line content | termination => rfl

theorem afterAll_of_same {us vs : List Response} (h : List.Forall₂ Response.Same us vs) (d : Due) :
    d.afterAll us = d.afterAll vs := by
  induction h generalizing d with
  | nil => rfl
  | cons hsame _ ih =>
    rw [afterAll, List.foldl_cons, after_of_same hsame]
    exact ih _

/-- A status is read where one is due. -/
theorem parseLine_status (expectsBody : Bool) (indicator : Indicator) {text : StatusText}
    (h : text.WellFormed) :
    Response.parseLine { expectsBody } (Response.writeContent (.status indicator text))
      = (((status expectsBody).after (.status indicator text)).reading,
        .ok (.status indicator text.resolved)) := by
  rw [Response.parseLine, if_neg (Response.writeContent_status_ne_dot indicator text)]
  show Response.parseStatus expectsBody _ = _
  rw [Response.parseStatus_write expectsBody indicator h]
  cases expectsBody <;> cases indicator <;> rfl

/-- A response that is due is read. -/
theorem exists_parseLine {d : Due} {u : Response} (hd : d.allows u = true) (hu : u.WellFormed) :
    ∃ u', u'.Same u
      ∧ Response.parseLine d.reading u.writeContent = ((d.after u).reading, .ok u') := by
  rcases d with _ | expectsBody | _
  · cases hd
  · cases u with
    | status indicator text =>
      exact ⟨_, .status indicator text.same_resolved, parseLine_status expectsBody indicator hu⟩
    | continuation text | line content | termination => cases hd
  · cases u with
    | status indicator text | continuation text => cases hd
    | line content =>
      refine ⟨_, .line content, ?_⟩
      rw [Response.parseLine, Response.writeContent, if_neg (stuff_ne_dot content), unstuff_stuff]
      rfl
    | termination => exact ⟨_, .termination, rfl⟩

/-- A response that is due is what its line gives, and what is due after it is kept in mind. -/
theorem exists_answer {config : Config} {d : Due} {u : Response} (hd : d.allows u = true)
    (hu : u.Fits config.limits) :
    ∃ u', u'.Same u ∧ (Response.grammar config).answer d.reading u.write.concat
      = (some (.ok u'), (d.after u).reading) := by
  obtain ⟨u', hsame, hline⟩ := exists_parseLine hd hu.wellFormed
  exact ⟨u', hsame, Grammar.answer_of_parse hu.line (Response.parse_write hu.wellFormed hline)⟩

/-- Responses that are due in a row are what their lines give, up to the spelling of codes. -/
theorem exists_lines_read {config : Config} {d : Due} {us : List Response} (hd : d.AllowsAll us)
    (hus : ∀ u ∈ us, u.Fits config.limits) :
    ∃ rs, List.Forall₂ Response.Same rs us
      ∧ (Response.grammar config).Lines d.reading (Response.lines us) rs
      ∧ (Response.grammar config).after d.reading (Response.lines us)
        = (d.afterAll us).reading := by
  induction us generalizing d with
  | nil => exact ⟨[], .nil, ⟨Response.lineLocal_grammar config, List.forall_mem_nil _, rfl⟩, rfl⟩
  | cons u us ih =>
    rw [List.forall_mem_cons] at hus
    obtain ⟨u', hsame, hanswer⟩ := exists_answer hd.1 hus.1
    obtain ⟨rs, hrs, hlines, hafter⟩ := ih hd.2 hus.2
    refine ⟨u' :: rs, .cons hsame hrs, ⟨hlines.lineLocal, ?_, ?_⟩, ?_⟩
    · exact List.forall_mem_cons.2 ⟨hus.1.wellFormed.isLine, hlines.isLine⟩
    · rw [Response.lines, List.map_cons, Grammar.answers, hanswer]
      exact congrArg (.ok u' :: ·) hlines.answers
    · rw [Response.lines, List.map_cons, Grammar.after, List.foldl_cons, hanswer]
      exact hafter

end Due

end Pop3

end MailProtocol
