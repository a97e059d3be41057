import MailProtocol.Proofs.Pop3.RoundTrip

/-!
# Bodies line by line

A whole body is sent as if each of its lines were sent on its own (`exists_lines_stuffBody`), and so
it makes no difference whether a server has the body in one piece or its lines
(`stuffBody_eq_lines`). What is in the body does not matter: no line of what is sent can be taken
for the end of the body before the end, and nothing of the body is lost (`stuffBody_lossless`).

A body can also be sent byte by byte, by a flag that says whether a line begins
(`stuffBody_eq_stuffBytes`).
-/

namespace MailProtocol

namespace Pop3

/-! ## Lines -/

/-- The dot is added in front of a line, and its end has no say in it. -/
theorem stuff_append {t : Bytes} (ht : t.head? ≠ some Byte.dot) (content : Bytes) :
    stuff (content ++ t) = stuff content ++ t := by
  cases content with
  | nil => exact stuff_of_head? ht
  | cons b content =>
    by_cases hb : b = Byte.dot
    · subst hb
      rfl
    · have hhead (s : Bytes) : (b :: s).head? ≠ some Byte.dot := fun h => hb (Option.some.inj h)
      rw [stuff_of_head? (hhead content)]
      exact stuff_of_head? (hhead (content ++ t))

theorem isLine_stuff {l : Bytes} (h : l.IsLine) : (stuff l).IsLine := by
  unfold stuff
  split
  · exact .cons (by decide) h
  · exact h

/-- A line that is sent has either no dot in front or two. -/
theorem head?_of_stuff_eq {l t : Bytes} (h : stuff l = Byte.dot :: t) :
    t.head? = some Byte.dot := by
  by_cases hl : l.head? = some Byte.dot
  · obtain ⟨l, rfl⟩ := List.head?_eq_some_iff.1 hl
    rw [stuff_dot] at h
    rw [← (List.cons.inj h).2]
    rfl
  · rw [stuff_of_head? hl] at h
    rw [h] at hl
    exact absurd rfl hl

/-! ## Bodies -/

theorem endsLine_iff {s : Bytes} : endsLine s = true ↔ s = [] ∨ s.getLast? = some Byte.lf := by
  rw [endsLine, Bool.or_eq_true, List.isEmpty_iff, Bytes.endsWith, List.isSuffixOf_iff_suffix,
    List.singleton_suffix_iff_getLast?_eq_some]

/-- Whether a body ends where a line does is up to what comes after its first line. -/
theorem endsLine_line_append {l : Bytes} (h : l.IsLine) (s : Bytes) :
    endsLine (l ++ s) = endsLine s := by
  obtain ⟨content, -, rfl⟩ := h
  rw [Bool.eq_iff_iff, endsLine_iff, endsLine_iff]
  rcases List.eq_nil_or_concat s with rfl | ⟨s, b, rfl⟩
  · simp
  · rw [List.concat_eq_append, ← List.append_assoc, List.getLast?_concat, List.getLast?_concat]
    simp

/-- Without a line feed only the empty body ends where a line does. -/
theorem endsLine_of_lf_notMem {t : Bytes} (h : Byte.lf ∉ t) : endsLine t = t.isEmpty := by
  rw [Bool.eq_iff_iff, endsLine_iff, List.isEmpty_iff]
  exact or_iff_left fun hlast => h (List.mem_of_getLast? hlast)

/-- The first line of a body is sent first. -/
theorem stuffBody_line_append {l : Bytes} (h : l.IsLine) (s : Bytes) :
    stuffBody (l ++ s) = stuff l ++ stuffBody s := by
  have hends := endsLine_line_append h s
  obtain ⟨content, hcontent, rfl⟩ := h
  have hsplit : (content ++ [Byte.lf] ++ s).splitOn Byte.lf = content :: s.splitOn Byte.lf := by
    rw [List.append_assoc]
    exact List.splitOn_append_cons_self_of_not_mem hcontent s
  obtain ⟨first, more, hmore⟩ := List.exists_cons_of_ne_nil (List.splitOn_ne_nil Byte.lf s)
  rw [stuffBody, stuffBody, hsplit, hends, hmore, List.map_cons, List.map_cons,
    List.intercalate_cons_cons, stuff_append (by decide)]
  simp only [List.append_assoc]

/-- What is not a line is made one, unless it is nothing. -/
theorem stuffBody_of_lf_notMem {t : Bytes} (h : Byte.lf ∉ t) :
    stuffBody t
      = (if t.isEmpty then [] else stuff (t ++ Bytes.crlf)) ++ Byte.dot :: Bytes.crlf := by
  rw [stuffBody, List.splitOn_eq_singleton h, endsLine_of_lf_notMem h, List.map_singleton,
    List.intercalate_singleton, stuff_append (by decide)]
  cases t with
  | nil => rfl
  | cons b t => rfl

/-- The lines of a body are sent one after the other, the last one with a line end if it has none,
and then the line that ends the body. -/
theorem exists_lines_stuffBody (body : Bytes) :
    ∃ ls : List Bytes, (∀ l ∈ ls, l.IsLine)
      ∧ ls.flatten = body ++ (if endsLine body then [] else Bytes.crlf)
      ∧ stuffBody body = (ls.map stuff).flatten ++ Byte.dot :: Bytes.crlf := by
  induction body using Bytes.lineInduction with
  | rest t ht =>
    rw [stuffBody_of_lf_notMem ht, endsLine_of_lf_notMem ht]
    cases hempty : t.isEmpty with
    | true => exact ⟨[], List.forall_mem_nil _, by simpa using hempty, rfl⟩
    | false =>
      refine ⟨[t ++ Bytes.crlf], ?_, by simp, by simp⟩
      exact List.forall_mem_singleton.2 (.append ht Bytes.isLine_crlf)
  | line l s hl ih =>
    obtain ⟨ls, hls, hflatten, hstuff⟩ := ih
    refine ⟨l :: ls, List.forall_mem_cons.2 ⟨hl, hls⟩, ?_, ?_⟩
    · rw [List.flatten_cons, hflatten, endsLine_line_append hl, List.append_assoc]
    · rw [stuffBody_line_append hl, hstuff, List.map_cons, List.flatten_cons, List.append_assoc]

/-! ## Byte by byte -/

/-- The lines of a body as they are sent, byte by byte. The flag says whether a line begins. -/
def stuffBytes (atLineStart : Bool) : Bytes → Bytes
  | [] => if atLineStart then [] else Bytes.crlf
  | b :: s =>
    (if atLineStart && b = Byte.dot then [Byte.dot] else []) ++ b :: stuffBytes (b = Byte.lf) s

/-- Inside of a line nothing is added. -/
theorem stuffBytes_false_append {content : Bytes} (h : Byte.lf ∉ content) (s : Bytes) :
    stuffBytes false (content ++ s) = content ++ stuffBytes false s := by
  induction content with
  | nil => rfl
  | cons b content ih =>
    obtain ⟨hb, hcontent⟩ := List.ne_and_not_mem_of_not_mem_cons h
    rw [List.cons_append, stuffBytes, decide_eq_false hb.symm, ih hcontent]
    rfl

/-- Where a line begins it gets its dot. -/
theorem stuffBytes_true_append {b : UInt8} {content : Bytes} (h : Byte.lf ∉ b :: content)
    (s : Bytes) :
    stuffBytes true (b :: content ++ s) = stuff (b :: content) ++ stuffBytes false s := by
  obtain ⟨hb, hcontent⟩ := List.ne_and_not_mem_of_not_mem_cons h
  rw [List.cons_append, stuffBytes, decide_eq_false hb.symm, stuffBytes_false_append hcontent]
  by_cases hdot : b = Byte.dot
  · subst hdot
    rfl
  · have hhead : (b :: content).head? ≠ some Byte.dot := fun h => hdot (Option.some.inj h)
    rw [stuff_of_head? hhead]
    simp [hdot]

theorem stuffBody_eq_stuffBytes (body : Bytes) :
    stuffBody body = stuffBytes true body ++ Byte.dot :: Bytes.crlf := by
  induction body using Bytes.lineInduction with
  | rest t ht =>
    rw [stuffBody_of_lf_notMem ht]
    cases t with
    | nil => rfl
    | cons b t =>
      have hbytes := stuffBytes_true_append ht []
      rw [List.append_nil] at hbytes
      rw [hbytes, stuff_append (by decide)]
      rfl
  | line l s hl ih =>
    obtain ⟨content, hcontent, rfl⟩ := hl
    rw [stuffBody_line_append ⟨content, hcontent, rfl⟩, ih, stuff_append (by decide)]
    cases content with
    | nil => rfl
    | cons b content =>
      rw [List.append_assoc (b :: content), stuffBytes_true_append hcontent]
      simp [stuffBytes]

/-! ## Responses -/

namespace Response

theorem concat_write_line (content : Bytes) :
    (write (.line content)).concat = stuff (content ++ Bytes.crlf) := by
  rw [concat_write, writeContent, stuff_append (by decide)]

/-- The responses for the lines of a body and for its end. -/
def ofLines (ls : List Bytes) : List Response := ls.map line ++ [termination]

/-- A body of lines is sent as the lines, and then the end of the body. -/
theorem stuffBody_eq_lines {ls : List Bytes} (h : ∀ l ∈ ls, Byte.lf ∉ l) :
    stuffBody (ls.map (· ++ Bytes.crlf)).flatten = (lines (ofLines ls)).flatten := by
  induction ls with
  | nil => rfl
  | cons l ls ih =>
    rw [List.forall_mem_cons] at h
    have hline : (l ++ Bytes.crlf).IsLine := .append h.1 Bytes.isLine_crlf
    rw [List.map_cons, List.flatten_cons, stuffBody_line_append hline, ih h.2,
      ← concat_write_line]
    rfl

variable {config : Config} {reading : Reading}

/-- In a body a line is read as a line, whatever is expected after the body. -/
theorem answer_line (hbody : reading.inBody = true) {content : Bytes}
    (h : (line content).Fits config.limits) :
    (grammar config).answer reading (write (.line content)).concat
      = (some (.ok (.line content)), reading) := by
  have hline : parseLine reading (writeContent (.line content))
      = (reading, .ok (.line content)) := by
    rw [parseLine, writeContent, if_neg (stuff_ne_dot content), if_pos hbody, unstuff_stuff]
  exact Grammar.answer_of_parse h.line (parse_write h.wellFormed hline)

theorem answer_termination (h : termination.Fits config.limits) :
    (grammar config).answer reading (write .termination).concat
      = (some (.ok .termination), { reading with inBody := false }) :=
  Grammar.answer_of_parse h.line (parse_write h.wellFormed rfl)

/-- In a body the lines and the end of the body are read as such. -/
theorem lines_ofLines (hbody : reading.inBody = true) {ls : List Bytes}
    (h : ∀ u ∈ ofLines ls, u.Fits config.limits) :
    (grammar config).Lines reading (lines (ofLines ls)) (ofLines ls) where
  lineLocal := lineLocal_grammar config
  isLine := List.forall_mem_map.2 fun u hu => (h u hu).wellFormed.isLine
  answers := by
    induction ls with
    | nil =>
      have hend : (grammar config).answer reading (write .termination).concat
          = (some (.ok .termination), { reading with inBody := false }) :=
        answer_termination (h _ (List.mem_singleton_self _))
      show (grammar config).answers reading [(write .termination).concat] = _
      rw [Grammar.answers, hend]
      rfl
    | cons l ls ih =>
      obtain ⟨hl, hls⟩ := List.forall_mem_cons.1 h
      show (grammar config).answers reading (_ :: lines (ofLines ls)) = _
      rw [Grammar.answers, answer_line hbody hl, ih hls]
      rfl

end Response

/-- What is sent for a body ends with a line that is a single dot, and has no line before it that
could be taken for one. -/
theorem exists_sent_lines (body : Bytes) :
    ∃ ls : List Bytes,
      (∀ l ∈ ls, l.IsLine ∧ l ≠ Byte.dot :: Bytes.crlf ∧ l ≠ [Byte.dot, Byte.lf])
        ∧ stuffBody body = ls.flatten ++ Byte.dot :: Bytes.crlf
        ∧ (ls.map unstuff).flatten
          = body ++ (if body = [] ∨ body.getLast? = some Byte.lf then [] else Bytes.crlf) := by
  obtain ⟨ls, hls, hflatten, hstuff⟩ := exists_lines_stuffBody body
  refine ⟨ls.map stuff, List.forall_mem_map.2 fun l hl => ?_, hstuff, ?_⟩
  · refine ⟨isLine_stuff (hls l hl), fun h => ?_, fun h => ?_⟩
    · exact absurd (head?_of_stuff_eq h) (by decide)
    · exact absurd (head?_of_stuff_eq h) (by decide)
  · have hunstuff : (ls.map stuff).map unstuff = ls := by
      rw [List.map_map]
      exact (List.map_congr_left fun l _ => unstuff_stuff l).trans (List.map_id ls)
    rw [hunstuff, hflatten]
    simp only [endsLine_iff]

/-- A client in a body reads the lines and the end of the body, wherever the bytes are cut. -/
theorem results_ofLines {config : Config} {reading : Response.Reading}
    (hbody : reading.inBody = true) {ls : List Bytes}
    (h : ∀ u ∈ Response.ofLines ls, u.Fits config.limits) {pieces : List Bytes}
    (hne : [] ∉ pieces) (hs : pieces.flatten = (Response.lines (Response.ofLines ls)).flatten)
    (chunk : Nat) :
    Reported.results (Receiver.reports (Response.lawful_grammar config) reading chunk pieces)
      = (Response.ofLines ls).map .ok := by
  have hread : (Bytes.readBy chunk pieces).flatten
      = (Response.lines (Response.ofLines ls)).flatten := (Bytes.flatten_readBy chunk hne).trans hs
  rw [Receiver.reports_eq_feed]
  exact (Response.lines_ofLines hbody h).results_feed (Response.lawful_grammar config) hread

/-- Nothing of a body is lost, and no line of it is taken for its end: what is sent ends with a line
that is a single dot and has no such line before, and the body is what comes before that line once
a dot is taken off each line that has one, except that its last line has a line end. A body of lines
is sent as the lines and the end of the body are, and a client in a body reads these, wherever the
bytes are cut, as long as no line is too long. -/
theorem stuffBody_lossless :
    (∀ body : Bytes, ∃ ls : List Bytes,
      (∀ l ∈ ls, l.IsLine ∧ l ≠ Byte.dot :: Bytes.crlf ∧ l ≠ [Byte.dot, Byte.lf])
        ∧ stuffBody body = ls.flatten ++ Byte.dot :: Bytes.crlf
        ∧ (ls.map unstuff).flatten
          = body ++ (if body = [] ∨ body.getLast? = some Byte.lf then [] else Bytes.crlf))
      ∧ ∀ ls : List Bytes, (∀ l ∈ ls, Byte.lf ∉ l) →
        stuffBody (ls.map (· ++ Bytes.crlf)).flatten
            = (Response.lines (Response.ofLines ls)).flatten
          ∧ ∀ (config : Config) (reading : Response.Reading), reading.inBody = true →
            (∀ l ∈ Response.lines (Response.ofLines ls),
              l.length ≤ config.limits.maxLineLength) →
            ∀ (pieces : List Bytes) (chunk : Nat), [] ∉ pieces →
              pieces.flatten = stuffBody (ls.map (· ++ Bytes.crlf)).flatten →
              Reported.results
                  (Receiver.reports (Response.lawful_grammar config) reading chunk pieces)
                = (Response.ofLines ls).map .ok := by
  refine ⟨exists_sent_lines, fun ls hls => ⟨Response.stuffBody_eq_lines hls, ?_⟩⟩
  intro config reading hbody hlength pieces chunk hne hs
  have hfits : ∀ u ∈ Response.ofLines ls, u.Fits config.limits := by
    intro u hu
    refine ⟨?_, hlength _ (List.mem_map_of_mem hu)⟩
    rcases List.mem_append.1 hu with hline | hend
    · obtain ⟨l, hl, rfl⟩ := List.mem_map.1 hline
      exact hls l hl
    · obtain rfl := List.mem_singleton.1 hend
      trivial
  exact results_ofLines hbody hfits hne (hs.trans (Response.stuffBody_eq_lines hls)) chunk

/-- A body of lines with dots, an empty one and one with a bare carriage return, cut inside of the
dots and of a line end, for a client that expects another body. -/
theorem stuffBody_lossless_dots :
    let ls := [Bytes.ascii ".", [], Bytes.ascii "..\r", Bytes.ascii "a."]
    let pieces := [Bytes.ascii ".", Bytes.ascii ".\r\n\r", Bytes.ascii "\n..",
      Bytes.ascii ".\r\r\na.", Bytes.ascii "\r\n.\r\n"]
    (∀ l ∈ ls, Byte.lf ∉ l) ∧ [] ∉ pieces
      ∧ pieces.flatten = stuffBody (ls.map (· ++ Bytes.crlf)).flatten
      ∧ Reported.results (Receiver.reports (Response.lawful_grammar {})
          { expectsBody := true, inBody := true } 4096 pieces)
        = (Response.ofLines ls).map .ok := by
  intro ls pieces
  have hls : ∀ l ∈ ls, Byte.lf ∉ l := by decide +kernel
  have hne : [] ∉ pieces := by decide +kernel
  have hs : pieces.flatten = stuffBody (ls.map (· ++ Bytes.crlf)).flatten := by decide +kernel
  have hread := (stuffBody_lossless.2 ls hls).2 {} { expectsBody := true, inBody := true } rfl
    (by decide +kernel) pieces 4096 hne hs
  exact ⟨hls, hne, hs, hread⟩

end Pop3

end MailProtocol
