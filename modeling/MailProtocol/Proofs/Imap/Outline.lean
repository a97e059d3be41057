import MailProtocol.Proofs.Imap.CommandRoundTrip
import MailProtocol.Proofs.Imap.Incremental

/-!
# The outline of a command

Literals cut the text of a command: each line but the last announces one, and its data come before
the next line. An `Outline` is a text that is cut in this way. Items and commands are written along
their outline (`Item.write_eq_segments`, `Command.write_eq_segments`), so the outline says where a
client waits.

A server reads a command along its outline (`Command.WellFormed.told`): after each line that
announces a literal it wants exactly the data, as long as the literal is not too long, and refuses
the command otherwise, whatever lengths it accepts.
-/

namespace MailProtocol

/-! ## Joining segments -/

namespace Segments

theorem empty_append (t : Segments) : empty ++ t = t := rfl

theorem append_assoc (s t u : Segments) : s ++ t ++ u = s ++ (t ++ u) := by
  obtain ⟨first, rest⟩ := s
  show join (join first rest t).first (join first rest t).rest u = join first rest (join _ _ u)
  induction rest generalizing first with
  | nil =>
    obtain ⟨middle, more⟩ := t
    cases more <;> simp [join]
  | cons next rest ih =>
    have hnext := ih next
    simp only [join, toList] at hnext ⊢
    rw [hnext]

end Segments

namespace Imap

/-- Text that is cut by literals. -/
inductive Outline where
  /-- Text up to the end. -/
  | text (s : Bytes)
  /-- Text, the literal that is announced behind it, and what comes after the literal. -/
  | literal (before data : Bytes) (binary : Bool) (more : Outline)

namespace Outline

/-- The outline with more text in front. -/
def prepend (s : Bytes) : Outline → Outline
  | text t => text (s ++ t)
  | literal before data binary more => literal (s ++ before) data binary more

/-- One outline after another. The last text of the first runs on into the second. -/
def append : Outline → Outline → Outline
  | text s, o => o.prepend s
  | literal before data binary more, o => literal before data binary (more.append o)

instance : Append Outline := ⟨append⟩

theorem literal_append (before data : Bytes) (binary : Bool) (more o : Outline) :
    literal before data binary more ++ o = literal before data binary (more ++ o) := rfl

/-- The text up to the first marker. -/
def front : Outline → Bytes
  | text s => s
  | literal before .. => before

/-- The contents of the literals, in order. -/
def literals : Outline → List Bytes
  | text _ => []
  | literal _ data _ more => data :: more.literals

/-- What is sent. -/
def segments (mode : LiteralMode) : Outline → Segments
  | text s => .ofBytes s
  | literal before data binary more =>
    .ofBytes before ++ Item.writeLiteral mode data binary ++ more.segments mode

theorem prepend_nil (o : Outline) : o.prepend [] = o := by cases o <;> rfl

theorem literals_prepend (s : Bytes) (o : Outline) : (o.prepend s).literals = o.literals := by
  cases o <;> rfl

theorem literals_append (o o' : Outline) : (o ++ o').literals = o.literals ++ o'.literals := by
  induction o with
  | text s => exact literals_prepend s o'
  | literal before data binary more ih => rw [literal_append, literals, ih]; rfl

theorem segments_prepend (mode : LiteralMode) (s : Bytes) (o : Outline) :
    (o.prepend s).segments mode = .ofBytes s ++ o.segments mode := by
  cases o with
  | text t => rfl
  | literal before data binary more =>
    show Segments.ofBytes (s ++ before) ++ _ ++ _ = Segments.ofBytes s ++ (_ ++ _ ++ _)
    rw [Segments.append_assoc, Segments.append_assoc, ← Segments.append_assoc (.ofBytes s)]
    rfl

theorem segments_append (mode : LiteralMode) (o o' : Outline) :
    (o ++ o').segments mode = o.segments mode ++ o'.segments mode := by
  induction o with
  | text s => exact segments_prepend mode s o'
  | literal before data binary more ih =>
    rw [literal_append, segments, ih, segments, Segments.append_assoc _ (more.segments mode)]

/-- The text of a line that announces a literal. -/
def line (mode : LiteralMode) (before data : Bytes) (binary : Bool) : Bytes :=
  before ++ Item.literalMarker (mode = .nonSynchronising) binary data.length

/-- A literal takes a line for its announcement, and its data begin what comes next. -/
theorem concat_segments_literal (mode : LiteralMode) (before data : Bytes) (binary : Bool)
    (more : Outline) : ((literal before data binary more).segments mode).concat
      = line mode before data binary ++ (data ++ (more.segments mode).concat) := by
  have hpause : (if mode = .synchronising then Segments.pause else .empty).concat = [] := by
    split <;> rfl
  rw [segments, Item.writeLiteral, Segments.concat_append, Segments.concat_append,
    Segments.concat_append, Segments.concat_append, Segments.concat_ofBytes,
    Segments.concat_ofBytes, Segments.concat_ofBytes, hpause, line]
  simp only [List.append_assoc, List.nil_append]

/-- A client that waits is cut right behind the announcement. -/
theorem segments_synchronising (before data : Bytes) (binary : Bool) (more : Outline) :
    (literal before data binary more).segments .synchronising
      = ⟨line .synchronising before data binary,
        (data ++ (more.segments .synchronising).first) :: (more.segments .synchronising).rest⟩ := by
  have hpause (s : Bytes) (t : Segments) : .ofBytes s ++ .pause ++ t
    = (⟨s, t.toList⟩ : Segments) := by
    show (⟨s ++ [], ([] ++ t.first) :: t.rest⟩ : Segments) = _
    rw [List.append_nil]
    rfl
  rw [segments, Item.writeLiteral, if_pos rfl, ← Segments.append_assoc, ← Segments.append_assoc,
    Segments.append_assoc _ (.ofBytes data)]
  exact hpause _ _

/-- Without a wait there is no cut. -/
theorem rest_segments {mode : LiteralMode} (h : mode ≠ .synchronising) (o : Outline) :
    (o.segments mode).rest = [] := by
  induction o with
  | text s => rfl
  | literal before data binary more ih =>
    rw [segments, Item.writeLiteral, if_neg h]
    exact ih

end Outline

/-! ## Outlines of items and commands -/

namespace Item

mutual

/-- The outline of an item. -/
def outline : Item → Outline
  | atom s => .text s
  | quoted s => .text (writeQuoted s)
  | literal s binary => .literal [] s binary (.text [])
  | nil => .text nilWord
  | list items => (outlineAll items ++ .text [Byte.closeParen]).prepend [Byte.openParen]

/-- The outline of items with spaces between. -/
def outlineAll : List Item → Outline
  | [] => .text []
  | x :: xs => outline x ++ outlineMore xs

/-- The outline of further items, each after a space. -/
def outlineMore : List Item → Outline
  | [] => .text []
  | x :: xs => (outline x ++ outlineMore xs).prepend [Byte.space]

end

mutual

/-- An item is written along its outline. -/
theorem write_eq_segments (mode : LiteralMode) :
    ∀ x : Item, x.write mode = x.outline.segments mode
  | atom s | quoted s | nil => rfl
  | literal s binary => by
    have hend : Segments.ofBytes s ++ .ofBytes [] = .ofBytes s :=
      congrArg Segments.ofBytes (List.append_nil s)
    show writeLiteral mode s binary
      = Segments.empty ++ writeLiteral mode s binary ++ Segments.ofBytes []
    rw [Segments.empty_append, writeLiteral, Segments.append_assoc _ (.ofBytes s), hend]
  | list items => by
    rw [write, outline, Outline.segments_prepend, Outline.segments_append,
      writeAll_eq_segments mode items, Segments.append_assoc]
    rfl

theorem writeAll_eq_segments (mode : LiteralMode) :
    ∀ xs : List Item, writeAll mode xs = (outlineAll xs).segments mode
  | [] => rfl
  | x :: xs => by
    rw [writeAll, outlineAll, Outline.segments_append, write_eq_segments mode x,
      writeMore_eq_segments mode xs]

theorem writeMore_eq_segments (mode : LiteralMode) :
    ∀ xs : List Item, writeMore mode xs = (outlineMore xs).segments mode
  | [] => rfl
  | x :: xs => by
    rw [writeMore, outlineMore, Outline.segments_prepend, Outline.segments_append,
      write_eq_segments mode x, writeMore_eq_segments mode xs, Segments.append_assoc]

end

mutual

theorem literals_outline : ∀ x : Item, x.outline.literals = x.literals
  | atom s | quoted s | nil => rfl
  | literal s binary => rfl
  | list items => by
    rw [outline, Outline.literals_prepend, Outline.literals_append, literals_outlineAll items,
      literals]
    exact List.append_nil _

theorem literals_outlineAll : ∀ xs : List Item, (outlineAll xs).literals = literalsAll xs
  | [] => rfl
  | x :: xs => by
    rw [outlineAll, Outline.literals_append, literals_outline x, literals_outlineMore xs,
      literalsAll]

theorem literals_outlineMore : ∀ xs : List Item, (outlineMore xs).literals = literalsAll xs
  | [] => rfl
  | x :: xs => by
    rw [outlineMore, Outline.literals_prepend, Outline.literals_append, literals_outline x,
      literals_outlineMore xs, literalsAll]

end

end Item

/-! ## Reading along the outline -/

namespace Outline

/-- How the text of an outline is read: from `nest`, after `waits` literals that were waited for, up
to `nest'` and `waits'`. All of this is so whatever lengths of literals are accepted. -/
inductive Reads (mode : LiteralMode) (nest' : Nest) (waits' : Nat) : Outline → Nest → Nat → Prop
  | text {s : Bytes} {nest : Nest} {waits : Nat} (hline : Byte.lf ∉ s)
    (hrun : ∀ maxLiteral y, Follows y →
      Scan.run maxLiteral nest waits (s ++ y) = Scan.run maxLiteral nest' waits' y) :
    Reads mode nest' waits' (.text s) nest waits
  | literal {before data : Bytes} {binary : Bool} {more : Outline} {nest next : Nest}
    {waits between : Nat} (hline : Byte.lf ∉ before) (hlimit : data.length < Decimal.limit)
    (hrun : ∀ maxLiteral y,
      Scan.run maxLiteral nest waits (before ++ y) = Scan.run maxLiteral next between y)
    (hmore : Reads mode nest' waits' more (next.push (.literal data binary))
      (between + Item.waits mode [data])) :
    Reads mode nest' waits' (.literal before data binary more) nest waits

/-- The outline may stand behind an item. -/
def Trails : Outline → Prop
  | text s => s = [] ∨ Follows s
  | literal before .. => Follows before

end Outline

theorem Follows.append {s : Bytes} (h : Follows s) (t : Bytes) : Follows (s ++ t) := by
  obtain ⟨b, s, rfl, hb⟩ := h
  exact ⟨b, s ++ t, rfl, hb⟩

namespace Outline

variable {mode : LiteralMode} {nest nest' next : Nest} {waits waits' between : Nat}
  {o o' : Outline}

theorem trails_prepend (s : Bytes) (o : Outline) (h : Follows s) : (o.prepend s).Trails := by
  cases o with
  | text t => exact .inr (h.append t)
  | literal before data binary more => exact h.append before

/-- Lexemes that end in any case may come first. -/
theorem Reads.prepend {s : Bytes} (h : Reads mode nest' waits' o next between) (hs : Byte.lf ∉ s)
    (hrun : ∀ maxLiteral y,
      Scan.run maxLiteral nest waits (s ++ y) = Scan.run maxLiteral next between y) :
    Reads mode nest' waits' (o.prepend s) nest waits := by
  cases h with
  | @text t _ _ hline hrun' =>
    refine .text (by simp [hs, hline]) fun maxLiteral y hy => ?_
    rw [List.append_assoc, hrun, hrun' maxLiteral y hy]
  | literal hline hlimit hrun' hmore =>
    refine .literal (by simp [hs, hline]) hlimit (fun maxLiteral y => ?_) hmore
    rw [List.append_assoc, hrun, hrun']

/-- What stands behind an item is read from where that item has been read. -/
theorem Reads.append (h : Reads mode next between o nest waits)
    (h' : Reads mode nest' waits' o' next between) (htrails : o'.Trails) :
    Reads mode nest' waits' (o ++ o') nest waits := by
  induction h with
  | @text s nest waits hline hrun =>
    cases h' with
    | @text t _ _ hline' hrun' =>
      refine .text (by simp [hline, hline']) fun maxLiteral y hy => ?_
      have hfollows : Follows (t ++ y) := htrails.elim (fun ht => ht ▸ hy) fun ht => ht.append y
      rw [List.append_assoc, hrun maxLiteral _ hfollows, hrun' maxLiteral y hy]
    | literal hline' hlimit hrun' hmore =>
      refine .literal (by simp [hline, hline']) hlimit (fun maxLiteral y => ?_) hmore
      rw [List.append_assoc, hrun maxLiteral _ (Follows.append htrails y), hrun']
  | literal hline hlimit hrun _ ih => exact .literal hline hlimit hrun ih

end Outline

namespace Item

/-- An item that holds nothing but its text. -/
theorem reads_text {mode : LiteralMode} {nest : Nest} {waits : Nat} {s : Bytes} {x : Item}
    (hline : Byte.lf ∉ s) (hliterals : x.literals = [])
    (hrun : ∀ maxLiteral y, Follows y → Scan.run maxLiteral nest waits (s ++ y)
      = Scan.run maxLiteral (nest.push x) waits y) :
    (Outline.text s).Reads mode (nest.push x) (waits + Item.waits mode x.literals) nest waits := by
  have hwaits : Item.waits mode x.literals = 0 := by
    rw [hliterals, Item.waits]
    split <;> rfl
  rw [hwaits]
  exact .text hline hrun

mutual

/-- Items are read along their outline. -/
theorem reads_outline (mode : LiteralMode) : ∀ (x : Item) (nest : Nest) (waits : Nat),
    x.WellFormed Decimal.limit →
      x.outline.Reads mode (nest.push x) (waits + Item.waits mode x.literals) nest waits
  | .atom s, nest, waits, ⟨hne, htext, hnil⟩ => by
    have hword : ofWord s = .atom s := by rw [ofWord, if_neg (by simp [hnil])]
    exact reads_text htext.lf_notMem rfl fun _ _ hy => hword ▸ run_word htext hne hy
  | .quoted s, nest, waits, hx => by
    have hline : Byte.lf ∉ writeQuoted s := by
      rw [writeQuoted, List.mem_cons, List.mem_append, not_or, not_or]
      exact ⟨by decide, (quotedText_escape hx).lf_notMem, by decide⟩
    exact reads_text hline rfl fun _ _ _ => run_quoted hx
  | .literal s binary, nest, waits, hx =>
    .literal List.not_mem_nil hx.2 (fun _ _ => rfl) (.text List.not_mem_nil fun _ _ _ => rfl)
  | .nil, nest, waits, _ => by
    have htext : AtomText nilWord := atomText_of_readAtom (by decide)
    have hword : ofWord nilWord = .nil := by decide
    exact reads_text (by decide) rfl fun _ _ hy => hword ▸ run_word htext (by decide) hy
  | .list xs, nest, waits, hx => by
    have hclose : (Outline.text [Byte.closeParen]).Reads mode (nest.push (.list xs))
        (waits + Item.waits mode (literalsAll xs)) (nest.openList.pushAll xs)
        (waits + Item.waits mode (literalsAll xs)) :=
      .text (by decide) fun _ y _ => run_closeParen (nest.closeList?_pushAll xs) y
    have hopened := (reads_outlineAll mode xs nest.openList waits hx).append hclose
      (.inr (follows_closeParen []))
    exact hopened.prepend (by decide) fun _ y => run_openParen y

theorem reads_outlineAll (mode : LiteralMode) : ∀ (xs : List Item) (nest : Nest) (waits : Nat),
    AllWellFormed Decimal.limit xs → (outlineAll xs).Reads mode (nest.pushAll xs)
      (waits + Item.waits mode (literalsAll xs)) nest waits
  | [], nest, waits, _ => by
    refine .text List.not_mem_nil fun maxLiteral y _ => ?_
    simp [Nest.pushAll_nil, literalsAll, Item.waits]
  | x :: xs, nest, waits, hxs => by
    obtain ⟨htrails, hmore⟩ := reads_outlineMore mode xs (nest.push x)
      (waits + Item.waits mode x.literals) hxs.2
    rw [Nest.pushAll_cons, literalsAll, waits_append, ← Nat.add_assoc]
    exact (reads_outline mode x nest waits hxs.1).append hmore htrails

theorem reads_outlineMore (mode : LiteralMode) : ∀ (xs : List Item) (nest : Nest) (waits : Nat),
    AllWellFormed Decimal.limit xs → (outlineMore xs).Trails
      ∧ (outlineMore xs).Reads mode (nest.pushAll xs)
        (waits + Item.waits mode (literalsAll xs)) nest waits
  | [], nest, waits, _ => by
    refine ⟨.inl rfl, .text List.not_mem_nil fun maxLiteral y _ => ?_⟩
    simp [Nest.pushAll_nil, literalsAll, Item.waits]
  | x :: xs, nest, waits, hxs => by
    obtain ⟨htrails, hmore⟩ := reads_outlineMore mode xs (nest.push x)
      (waits + Item.waits mode x.literals) hxs.2
    rw [Nest.pushAll_cons, literalsAll, waits_append, ← Nat.add_assoc]
    refine ⟨Outline.trails_prepend _ _ (follows_space []), ?_⟩
    exact ((reads_outline mode x nest waits hxs.1).append hmore htrails).prepend (by decide)
      fun _ y => run_space y

end

end Item

namespace Command

/-- The outline of a command, its line end included. -/
def outline (c : Command) : Outline :=
  (Item.outlineMore c.args ++ .text Bytes.crlf).prepend c.headingText

/-- A command is written along its outline. -/
theorem write_eq_segments (w : Writer) (c : Command) :
    c.write w = c.outline.segments w.mode := by
  rw [outline, Outline.segments_prepend, Outline.segments_append, ← Item.writeMore_eq_segments,
    ← Segments.append_assoc]
  rfl

theorem literals_outline (c : Command) : c.outline.literals = c.literals := by
  rw [outline, Outline.literals_prepend, Outline.literals_append, Item.literals_outlineMore]
  exact List.append_nil _

/-- How a server that accepts literals up to `maxLiteral` reads the rest of the command `unit` with
this outline, when it has gathered the bytes `p`: it wants the data of each literal that has been
announced, and then one more line, or refuses the literal, and is content with the last line. -/
inductive Told (maxLiteral : Nat) (mode : LiteralMode) (unit : Command) : Bytes → Outline → Prop
  | last {p s : Bytes} (hs : s.IsLine)
    (hend : ∀ t, parse maxLiteral (p ++ (s ++ t)) = .ok (.complete unit t)) :
    Told maxLiteral mode unit p (.text s)
  | literal {p before data : Bytes} {binary : Bool} {more : Outline} (hline : Byte.lf ∉ before)
    (hlimit : data.length < Decimal.limit)
    (hmark : data.length ≤ maxLiteral → parse maxLiteral (p ++ Outline.line mode before data binary)
      = .ok (.incomplete (.literal data.length (mode ≠ .nonSynchronising))))
    (hlong : maxLiteral < data.length → parse maxLiteral (p ++ Outline.line mode before data binary)
      = .error { fault := .literalTooLong data.length, tag := some unit.tag })
    (hdata : data.length ≤ maxLiteral → data ≠ [] →
      parse maxLiteral (p ++ (Outline.line mode before data binary ++ data))
        = .ok (.incomplete .line))
    (hmore : data.length ≤ maxLiteral →
      Told maxLiteral mode unit (p ++ (Outline.line mode before data binary ++ data)) more) :
    Told maxLiteral mode unit p (.literal before data binary more)

/-- If a server reads the items on a line as a scanner does, then it reads the rest of the command
along its outline. -/
theorem told_of_reads {maxLiteral waits waits' : Nat} {mode : LiteralMode} {tag verb : Bytes}
    {uid : Bool} {args : List Item} {nest nest' : Nest} {o : Outline}
    (h : o.Reads mode nest' waits' nest waits) (hargs : nest'.items? = some args) {p pre : Bytes}
    (hpre : Byte.lf ∉ pre)
    (hstands : ∀ y, y ≠ [] → (o ++ .text Bytes.crlf).front <+: y →
      parse maxLiteral (p ++ (pre ++ y)) = ofScan tag uid verb (Scan.run maxLiteral nest waits y)) :
    Told maxLiteral mode { tag, verb, uid, args, continuation := 0 < waits' } p
      ((o ++ .text Bytes.crlf).prepend pre) := by
  induction h generalizing p pre with
  | @text s nest waits hline hrun =>
    refine .last (.append hpre (.append hline Bytes.isLine_crlf)) fun t => ?_
    have hparse := hstands (s ++ (Bytes.crlf ++ t)) (by simp [Bytes.crlf])
      ⟨t, List.append_assoc s Bytes.crlf t⟩
    rw [hrun maxLiteral _ (follows_crlf t), run_crlf hargs] at hparse
    rw [List.append_assoc, List.append_assoc]
    exact hparse
  | @literal before data binary more nest next waits between hline hlimit hrun hmore ih =>
    have hmarker := announces_literalMarker hlimit (mode = .nonSynchronising) binary
    set marker := Item.literalMarker (mode = .nonSynchronising) binary data.length with hmarkerdef
    have hlines : Outline.line mode (pre ++ before) data binary = pre ++ (before ++ marker) :=
      List.append_assoc pre before marker
    have hparse (y : Bytes) : parse maxLiteral (p ++ (pre ++ (before ++ (marker ++ y))))
        = ofScan tag uid verb (Scan.run maxLiteral next between (marker ++ y)) := by
      have hne : before ++ (marker ++ y) ≠ [] := List.append_ne_nil_of_right_ne_nil _
        (List.append_ne_nil_of_left_ne_nil hmarker.isLine.ne_nil y)
      rw [hstands _ hne ⟨marker ++ y, rfl⟩, hrun]
    have htaken (hfit : data.length ≤ maxLiteral) (y : Bytes) (hy : data ++ y ≠ []) :
        parse maxLiteral (p ++ (pre ++ (before ++ (marker ++ (data ++ y)))))
          = ofScan tag uid verb (Scan.run maxLiteral (next.push (.literal data binary))
            (between + Item.waits mode [data]) y) := by
      have hwaits : Item.waits mode [data] = (!decide (mode = .nonSynchronising)).toNat := by
        cases mode <;> rfl
      rw [hparse, Scan.run_of_literal hmarker hfit rfl hy, hwaits]
    refine .literal (by simp [hpre, hline]) hlimit (fun hfit => ?_) (fun hlong => ?_)
      (fun hfit hne => ?_) fun hfit => ?_
    · have hmark := hparse []
      rw [List.append_nil, Scan.run_of_announces hmarker hfit] at hmark
      rw [hlines, hmark]
      cases mode <;> rfl
    · have hmark := hparse []
      rw [Scan.run_of_too_long hmarker hlong, List.append_nil] at hmark
      rw [hlines, hmark]
      rfl
    · have hdata := htaken hfit [] (by simpa using hne)
      rw [Scan.run_nil, List.append_nil] at hdata
      rw [hlines, List.append_assoc, List.append_assoc, hdata]
      rfl
    · rw [← Outline.prepend_nil (more.append _)]
      refine ih List.not_mem_nil fun y hy _ => ?_
      rw [hlines, List.nil_append, ← htaken hfit y (List.append_ne_nil_of_right_ne_nil _ hy)]
      simp only [List.append_assoc]

/-- A command that has been written is read along its outline, whatever lengths of literals the
server accepts. -/
theorem WellFormed.told {c : Command} (h : c.WellFormed Decimal.limit) (maxLiteral : Nat)
    (w : Writer) :
    Told maxLiteral w.mode { c with continuation := !w.literalPlus && Item.anyLiteral c.args } []
      c.outline := by
  obtain ⟨-, hargs⟩ := Item.reads_outlineMore w.mode c.args .empty 0 h.args
  rw [Nat.zero_add] at hargs
  rw [← waits_pos_iff]
  refine told_of_reads hargs (Nest.items?_pushAll c.args) h.heading.lf_notMem fun y _ hy => ?_
  · rw [List.nil_append]
    obtain ⟨z, rfl⟩ := hy
    cases hxs : c.args with
    | nil =>
      rw [Item.outlineMore]
      show parse maxLiteral (c.headingText ++ (Bytes.crlf ++ z))
        = ofScan c.tag c.uid c.verb (Scan.run maxLiteral .empty 0 (Bytes.crlf ++ z))
      have hitems : Nest.empty.items? = some [] := rfl
      rw [parse_heading_crlf h.heading, run_crlf hitems]
      rfl
    | cons x xs =>
      -- the arguments begin with a space, which the heading ends at
      obtain ⟨y, hy⟩ : ∃ y, (Item.outlineMore (x :: xs) ++ .text Bytes.crlf).front ++ z
          = Byte.space :: y := by
        rw [Item.outlineMore]
        cases Item.outline x ++ Item.outlineMore xs with
        | text s => exact ⟨_, rfl⟩
        | literal before data binary more => exact ⟨_, rfl⟩
      rw [hy, parse_heading_space h.heading, run_space]
      rfl

end Command

/-! ## Literals of any length -/

namespace Item

mutual

/-- Items can be written for a server that accepts no more than so much if they can be written at
all and have no longer literal. -/
theorem wellFormed_iff (maxLiteral : Nat) : ∀ x : Item, x.WellFormed maxLiteral
    ↔ x.WellFormed Decimal.limit ∧ ∀ d ∈ x.literals, d.length ≤ maxLiteral
  | atom s | quoted s | nil => by simp [WellFormed, literals]
  | literal s binary => by
    simp only [WellFormed, literals, List.forall_mem_singleton]
    omega
  | list items => by
    rw [WellFormed, WellFormed, literals]
    exact allWellFormed_iff maxLiteral items

theorem allWellFormed_iff (maxLiteral : Nat) : ∀ xs : List Item, AllWellFormed maxLiteral xs
    ↔ AllWellFormed Decimal.limit xs ∧ ∀ d ∈ literalsAll xs, d.length ≤ maxLiteral
  | [] => by simp [AllWellFormed, literalsAll]
  | x :: xs => by
    rw [AllWellFormed, AllWellFormed, literalsAll, List.forall_mem_append,
      wellFormed_iff maxLiteral x, allWellFormed_iff maxLiteral xs]
    exact and_and_and_comm

end

end Item

/-- The same for commands. -/
theorem Command.wellFormed_iff (maxLiteral : Nat) (c : Command) : c.WellFormed maxLiteral
    ↔ c.WellFormed Decimal.limit ∧ ∀ d ∈ c.literals, d.length ≤ maxLiteral := by
  constructor
  · intro h
    obtain ⟨hargs, hliterals⟩ := (Item.allWellFormed_iff maxLiteral c.args).1 h.args
    exact ⟨⟨h.tag, h.verb, h.prefixed, hargs⟩, hliterals⟩
  · rintro ⟨h, hliterals⟩
    exact ⟨h.tag, h.verb, h.prefixed, (Item.allWellFormed_iff maxLiteral c.args).2
      ⟨h.args, hliterals⟩⟩

end Imap

end MailProtocol
