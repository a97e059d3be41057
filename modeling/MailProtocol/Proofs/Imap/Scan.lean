import MailProtocol.Proofs.Imap.Lexeme

/-!
# The logical line of items

Items that are read as a whole stand on a logical line, which is one line for each literal and a
last one (`Layout`). Each line but the last announces a literal, whose data come before the next
line. Cut behind any of these lines or literals, the text is not complete, and what is missing is
told exactly: the announced bytes, or one more line.

`layout_of_run` finds the layout of what has been read.
-/

namespace MailProtocol.Imap

/-! ## The literals of items -/

namespace Item

mutual

/-- The contents of the item's literals, in the order in which they are written. -/
def literals : Item → List Bytes
  | literal s _ => [s]
  | list items => literalsAll items
  | atom _ | quoted _ | nil => []

/-- The contents of the literals of the items, in the order in which they are written. -/
def literalsAll : List Item → List Bytes
  | [] => []
  | x :: xs => literals x ++ literalsAll xs

end

theorem literalsAll_append (xs ys : List Item) :
    literalsAll (xs ++ ys) = literalsAll xs ++ literalsAll ys := by
  induction xs with
  | nil => simp [literalsAll]
  | cons x xs ih => simp [literalsAll, ih]

theorem literalsAll_singleton (x : Item) : literalsAll [x] = literals x := by simp [literalsAll]

theorem literals_ofWord (s : Bytes) : (ofWord s).literals = [] := by
  unfold ofWord
  split <;> simp [literals]

end Item

namespace Nest

/-- The contents of the literals that have been read, in order. -/
def literals (n : Nest) : List Bytes :=
  n.outer.reverse.flatMap (fun items => Item.literalsAll items.reverse)
    ++ Item.literalsAll n.inner.reverse

theorem literals_empty : literals empty = [] := by simp [literals, empty, Item.literalsAll]

theorem literals_push (n : Nest) (x : Item) : (n.push x).literals = n.literals ++ x.literals := by
  simp only [literals, push, List.reverse_cons, Item.literalsAll_append, Item.literalsAll_singleton,
    List.append_assoc]

theorem literals_openList (n : Nest) : n.openList.literals = n.literals := by
  simp [literals, openList, Item.literalsAll]

theorem literals_of_closeList? {n n' : Nest} (h : n.closeList? = some n') :
    n'.literals = n.literals := by
  obtain ⟨inner, outer⟩ := n
  cases outer with
  | nil => cases h
  | cons around outer =>
    obtain rfl := Option.some.inj h
    simp [literals, Item.literalsAll_append, Item.literalsAll_singleton, Item.literals]

theorem literals_of_items? {n : Nest} {items : List Item} (h : n.items? = some items) :
    Item.literalsAll items = n.literals := by
  obtain ⟨inner, outer⟩ := n
  cases outer with
  | nil =>
    obtain rfl := Option.some.inj h
    simp [literals]
  | cons around outer => cases h

end Nest

/-! ## One lexeme after the other -/

namespace Scan

/-- Read on after a lexeme. -/
def after (maxLiteral : Nat) (nest : Nest) (waits : Nat) (lexeme : Lexeme) (rest : Bytes) :
    Except Fault Scan :=
  match lexeme with
  | .blank => run maxLiteral nest waits rest
  | .lineEnd =>
    match nest.items? with
    | none => .error .unclosedParenthesis
    | some items => .ok (.complete items waits rest)
  | .openList => run maxLiteral nest.openList waits rest
  | .closeList =>
    match nest.closeList? with
    | none => .error .unopenedParenthesis
    | some nest => run maxLiteral nest waits rest
  | .item x waited => run maxLiteral (nest.push x) (waits + waited.toNat) rest

variable {maxLiteral : Nat} {nest : Nest} {waits : Nat}

theorem run_nil : run maxLiteral nest waits [] = .ok (.incomplete .line) := by
  rw [run]

theorem run_cons (b : UInt8) (s : Bytes) :
    run maxLiteral nest waits (b :: s) = match Lexeme.first maxLiteral b s with
      | .wrong fault => .error fault
      | .wanting needs => .ok (.incomplete needs)
      | .found lexeme rest => after maxLiteral nest waits lexeme rest := by
  rw [run]
  split
  · next hfirst => rw [hfirst]
  · next hfirst => rw [hfirst]
  · next lexeme rest hfirst =>
    simp only [hfirst]
    cases lexeme <;> rfl

theorem run_of_spells {lexeme : Lexeme} {text rest : Bytes}
    (h : lexeme.Spells maxLiteral text rest.head?) :
    run maxLiteral nest waits (text ++ rest) = after maxLiteral nest waits lexeme rest := by
  obtain ⟨b, s, hs⟩ := List.exists_cons_of_ne_nil (List.append_ne_nil_of_left_ne_nil h.ne_nil rest)
  rw [hs, run_cons, Lexeme.first_of_spells h hs.symm]

/-- A literal that has been announced is waited for. -/
theorem run_of_announces {m : LiteralMarker} {text : Bytes} (h : m.Announces text)
    (hfit : m.length ≤ maxLiteral) :
    run maxLiteral nest waits text = .ok (.incomplete (.literal m.length m.synchronising)) := by
  obtain ⟨b, s, rfl⟩ := List.exists_cons_of_ne_nil h.isLine.ne_nil
  rw [run_cons, Lexeme.first_of_marker h hfit (List.append_nil _).symm,
    Lexeme.literal_eq_wanting (.inr rfl)]
  rfl

/-- A literal that is too long is refused as soon as it has been announced. -/
theorem run_of_too_long {m : LiteralMarker} {text : Bytes} (h : m.Announces text)
    (hlong : maxLiteral < m.length) (t : Bytes) :
    run maxLiteral nest waits (text ++ t) = .error (.literalTooLong m.length) := by
  obtain ⟨b, s, hs⟩ :=
    List.exists_cons_of_ne_nil (List.append_ne_nil_of_left_ne_nil h.isLine.ne_nil t)
  rw [hs, run_cons, Lexeme.first_of_announces h hs.symm, if_pos hlong]

/-- A literal is taken with its announcement, as soon as something follows the latter. -/
theorem run_of_literal {m : LiteralMarker} {text data t : Bytes} (h : m.Announces text)
    (hfit : m.length ≤ maxLiteral) (hdata : data.length = m.length) (hthere : data ++ t ≠ []) :
    run maxLiteral nest waits (text ++ (data ++ t))
      = run maxLiteral (nest.push (.literal data m.binary)) (waits + m.synchronising.toNat) t := by
  have hnext : data ≠ [] ∨ t.head? ≠ none := by
    rw [ne_eq, List.append_eq_nil_iff, not_and_or] at hthere
    exact hthere.imp_right (mt List.head?_eq_none_iff.1)
  rw [← List.append_assoc, run_of_spells (.literal h hfit hdata hnext)]
  rfl

/-! ## The layout -/

/-- The text `s` of items that are read on from `nest`, with the contents of its literals. Each line
of it but the last is announced by what comes before. -/
inductive Layout (maxLiteral : Nat) (items : List Item) (waits' : Nat) :
    Nest → Nat → List Bytes → Bytes → Prop
  | last {nest : Nest} {waits : Nat} {l : Bytes} (hl : l.IsLine)
    (hrun : ∀ t, run maxLiteral nest waits (l ++ t) = .ok (.complete items waits' t)) :
    Layout maxLiteral items waits' nest waits [] l
  | literal {nest next : Nest} {waits more : Nat} {l d s : Bytes} {ds : List Bytes}
    {synchronising : Bool} (hl : l.IsLine)
    (hmark : run maxLiteral nest waits l = .ok (.incomplete (.literal d.length synchronising)))
    (hdata : ∀ t, d ++ t ≠ [] →
      run maxLiteral nest waits (l ++ (d ++ t)) = run maxLiteral next more t)
    (hs : Layout maxLiteral items waits' next more ds s) :
    Layout maxLiteral items waits' nest waits (d :: ds) (l ++ (d ++ s))

namespace Layout

variable {items : List Item} {waits' : Nat} {s : Bytes} {ds : List Bytes}

theorem ne_nil (h : Layout maxLiteral items waits' nest waits ds s) : s ≠ [] := by
  cases h with
  | last hl _ => exact hl.ne_nil
  | literal hl _ _ _ => exact List.append_ne_nil_of_left_ne_nil hl.ne_nil _

/-- Lexemes without a line feed may come before the first line. -/
theorem prepend {next : Nest} {more : Nat} {text : Bytes}
    (h : Layout maxLiteral items waits' next more ds s) (htext : Byte.lf ∉ text)
    (hrun : ∀ y, y.head? = s.head? →
      run maxLiteral nest waits (text ++ y) = run maxLiteral next more y) :
    Layout maxLiteral items waits' nest waits ds (text ++ s) := by
  cases h with
  | last hl hlast =>
    refine .last (.append htext hl) fun t => ?_
    rw [List.append_assoc, hrun _ (List.head?_append_of_ne_nil _ hl.ne_nil), hlast]
  | @literal _ _ _ _ l d s _ _ hl hmark hdata hs =>
    -- of what comes after the lexemes only the first byte matters, and that is one of the line
    have hhead (y : Bytes) : (l ++ y).head? = (l ++ (d ++ s)).head? := by
      rw [List.head?_append_of_ne_nil _ hl.ne_nil, List.head?_append_of_ne_nil _ hl.ne_nil]
    have hmark' := hrun l (by rw [← hhead [], List.append_nil])
    rw [← List.append_assoc]
    refine .literal (.append htext hl) (hmark'.trans hmark) (fun t ht => ?_) hs
    rw [List.append_assoc, hrun _ (hhead _), hdata t ht]

/-- So may one such lexeme that is read into the nest. -/
theorem prepend_lexeme {next : Nest} {more : Nat} {lexeme : Lexeme} {text : Bytes}
    (h : Layout maxLiteral items waits' next more ds s)
    (hspells : lexeme.Spells maxLiteral text s.head?) (htext : Byte.lf ∉ text)
    (hafter : ∀ y, after maxLiteral nest waits lexeme y = run maxLiteral next more y) :
    Layout maxLiteral items waits' nest waits ds (text ++ s) := by
  refine h.prepend htext fun y hy => ?_
  rw [run_of_spells (hy ▸ hspells), hafter]

/-- A blank or a parenthesis that has been found before a layout joins its first line. -/
theorem exists_of_found {next : Nest} {more : Nat} {lexeme : Lexeme} {b : UInt8} {r rest : Bytes}
    (h : Layout maxLiteral items waits' next more ds s)
    (hfirst : Lexeme.first maxLiteral b r = .found lexeme (s ++ rest))
    (hmark : lexeme = .blank ∨ lexeme = .openList ∨ lexeme = .closeList)
    (hafter : ∀ y, after maxLiteral nest waits lexeme y = run maxLiteral next more y) :
    ∃ c, b :: r = c ++ rest ∧ Layout maxLiteral items waits' nest waits ds c := by
  obtain ⟨text, hs, hspells⟩ := Lexeme.first_eq_found_iff.1 hfirst
  rw [List.head?_append_of_ne_nil _ h.ne_nil] at hspells
  refine ⟨text ++ s, by rw [hs, List.append_assoc], ?_⟩
  exact h.prepend_lexeme hspells (hspells.lf_notMem hmark) hafter

end Layout

/-- A literal takes a line for its announcement. Any other item joins the line that follows. -/
theorem layout_of_item {items : List Item} {waits' : Nat} {x : Item} {waited : Bool}
    {text s : Bytes} {ds : List Bytes} (h : (Lexeme.item x waited).Spells maxLiteral text s.head?)
    (hs : Layout maxLiteral items waits' (nest.push x) (waits + waited.toNat) ds s) :
    Layout maxLiteral items waits' nest waits (x.literals ++ ds) (text ++ s) := by
  cases h with
  | @quoted _ text content h =>
    rw [Item.literals, List.nil_append]
    have hline : Byte.lf ∉ Byte.quote :: (text ++ [Byte.quote]) := by
      rw [List.mem_cons, List.mem_append, not_or, not_or]
      exact ⟨by decide, h.lf_notMem, by decide⟩
    exact hs.prepend_lexeme (.quoted h) hline fun _ => rfl
  | @atom _ _ h hne hstop hmarker =>
    rw [Item.literals_ofWord, List.nil_append]
    exact hs.prepend_lexeme (.atom h hne hstop hmarker) h.lf_notMem fun _ => rfl
  | @literal _ m text data htext hfit hdata hthere =>
    rw [Item.literals, List.append_assoc]
    have hmark : run maxLiteral nest waits text
        = .ok (.incomplete (.literal data.length m.synchronising)) := by
      rw [run_of_announces htext hfit, hdata]
    exact .literal htext.isLine hmark (fun t ht => run_of_literal htext hfit hdata ht) hs

/-- What has been read as a whole has a layout, with the literals of the items beyond those of the
nest. -/
theorem layout_of_run {items : List Item} {waits' : Nat} {s rest : Bytes}
    (h : run maxLiteral nest waits s = .ok (.complete items waits' rest)) :
    ∃ c ds, s = c ++ rest ∧ Layout maxLiteral items waits' nest waits ds c
      ∧ Item.literalsAll items = nest.literals ++ ds := by
  -- the layout of what is behind a lexeme begins with a line, which the lexeme joins
  fun_induction run maxLiteral nest waits s with
  | case1 | case2 | case3 | case5 | case8 => simp at h
  | case4 nest waits b s left hfirst _ ih =>
    obtain ⟨c, ds, rfl, hc, hitems⟩ := ih h
    obtain ⟨c', hs, hc'⟩ := hc.exists_of_found hfirst (.inl rfl) fun _ => rfl
    exact ⟨c', ds, hs, hc', hitems⟩
  | case6 nest waits b s left hfirst items' hitems =>
    obtain ⟨rfl, rfl, rfl⟩ := by simpa only [Except.ok.injEq, Scan.complete.injEq] using h
    obtain ⟨text, hs, hspells⟩ := Lexeme.first_eq_found_iff.1 hfirst
    cases hspells
    refine ⟨Bytes.crlf, [], hs, .last Bytes.isLine_crlf fun t => ?_, ?_⟩
    · rw [run_of_spells .lineEnd, after, hitems]
    · rw [Nest.literals_of_items? hitems, List.append_nil]
  | case7 nest waits b s left hfirst _ ih =>
    obtain ⟨c, ds, rfl, hc, hitems⟩ := ih h
    obtain ⟨c', hs, hc'⟩ := hc.exists_of_found hfirst (.inr (.inl rfl)) fun _ => rfl
    rw [Nest.literals_openList] at hitems
    exact ⟨c', ds, hs, hc', hitems⟩
  | case9 nest waits b s left hfirst next hclose _ ih =>
    obtain ⟨c, ds, rfl, hc, hitems⟩ := ih h
    have hafter (y : Bytes) : after maxLiteral nest waits .closeList y
        = run maxLiteral next waits y := by
      rw [after, hclose]
    obtain ⟨c', hs, hc'⟩ := hc.exists_of_found hfirst (.inr (.inr rfl)) hafter
    rw [Nest.literals_of_closeList? hclose] at hitems
    exact ⟨c', ds, hs, hc', hitems⟩
  | case10 nest waits b s left x waited hfirst _ ih =>
    obtain ⟨c, ds, rfl, hc, hitems⟩ := ih h
    obtain ⟨text, hs, hspells⟩ := Lexeme.first_eq_found_iff.1 hfirst
    rw [List.head?_append_of_ne_nil _ hc.ne_nil] at hspells
    rw [Nest.literals_push, List.append_assoc] at hitems
    refine ⟨text ++ c, x.literals ++ ds, by rw [hs, List.append_assoc], ?_, hitems⟩
    exact layout_of_item hspells hc

/-! ## The data of an announced literal -/

/-- A lexeme before which a text goes on to a line feed stays the same with more bytes there. -/
theorem run_append_of_found {b : UInt8} {s left d : Bytes} {lexeme : Lexeme} {next : Nest}
    {more : Nat} {result : Except Fault Scan}
    (hfirst : Lexeme.first maxLiteral b s = .found lexeme left)
    (hafter : ∀ y, after maxLiteral nest waits lexeme y = run maxLiteral next more y)
    (h : Byte.lf ∈ left ∧ run maxLiteral next more (left ++ d) = result) :
    Byte.lf ∈ b :: s ∧ run maxLiteral nest waits (b :: s ++ d) = result := by
  obtain ⟨hlf, hrun⟩ := h
  obtain ⟨text, hs, hspells⟩ := Lexeme.first_eq_found_iff.1 hfirst
  rw [← List.head?_append_of_ne_nil left (List.ne_nil_of_mem hlf)] at hspells
  rw [hs]
  refine ⟨List.mem_append_right text hlf, ?_⟩
  rw [List.append_assoc, run_of_spells hspells, hafter, hrun]

/-- With the data `d` behind the text `s`, the scanner goes on with what follows them as if it had
begun there. -/
def Resumes (maxLiteral : Nat) (nest : Nest) (waits : Nat) (s d : Bytes) : Prop :=
  ∃ next more, ∀ t, d ++ t ≠ [] →
    run maxLiteral nest waits (s ++ (d ++ t)) = run maxLiteral next more t

/-- Lexemes before the announcement keep their spelling, since a line feed is behind them. -/
theorem resumes_of_found {b : UInt8} {s left d : Bytes} {lexeme : Lexeme} {inner : Nest}
    {waited : Nat} (hfirst : Lexeme.first maxLiteral b s = .found lexeme left)
    (hafter : ∀ y, after maxLiteral nest waits lexeme y = run maxLiteral inner waited y)
    (h : Byte.lf ∈ left ∧ Resumes maxLiteral inner waited left d) :
    Byte.lf ∈ b :: s ∧ Resumes maxLiteral nest waits (b :: s) d := by
  obtain ⟨hlf, next, more, hrun⟩ := h
  have hmore (y : Bytes) := run_append_of_found (d := y) hfirst hafter ⟨hlf, rfl⟩
  exact ⟨(hmore []).1, next, more, fun t ht => (hmore (d ++ t)).2.trans (hrun t ht)⟩

/-- When the bytes that a literal misses have come, the scanner goes on behind them, as soon as
there is anything to be read. -/
theorem resumes_of_announced {n : Nat} {s d : Bytes} {synchronising : Bool}
    (h : run maxLiteral nest waits s = .ok (.incomplete (.literal n synchronising)))
    (hd : d.length = n) : Byte.lf ∈ s ∧ Resumes maxLiteral nest waits s d := by
  fun_induction run maxLiteral nest waits s with
  | case1 | case2 | case5 | case6 | case8 => simp at h
  | case3 nest waits b s needs hfirst =>
    obtain rfl := by simpa only [Except.ok.injEq, Scan.incomplete.injEq] using h
    obtain ⟨m, text, data, htext, hfit, hs, rfl, rfl, hshort⟩ :=
      Lexeme.marker_of_first_wanting hfirst
    have hlen : (data ++ d).length = m.length := by
      rw [List.length_append]
      rcases hshort with hlt | rfl
      · omega
      · simpa using hd
    rw [hs]
    refine ⟨?_, nest.push (.literal (data ++ d) m.binary), waits + m.synchronising.toNat,
      fun t ht => ?_⟩
    · obtain ⟨content, -, rfl⟩ := htext.isLine
      simp
    · have hthere : data ++ d ++ t ≠ [] := by
        rw [List.append_assoc]
        exact List.append_ne_nil_of_right_ne_nil _ ht
      rw [List.append_assoc, ← List.append_assoc data]
      exact run_of_literal htext hfit hlen hthere
  | case4 nest waits b s left hfirst _ ih | case7 nest waits b s left hfirst _ ih =>
    exact resumes_of_found hfirst (fun _ => rfl) (ih h)
  | case9 nest waits b s left hfirst inner hclose _ ih =>
    exact resumes_of_found hfirst (fun y => by rw [after, hclose]) (ih h)
  | case10 nest waits b s left x waited hfirst _ ih =>
    exact resumes_of_found hfirst (fun _ => rfl) (ih h)

/-- With the bytes that a literal misses one more line is needed. The announcement is a line, so a
line feed is there. -/
theorem run_append_of_announced {n : Nat} {s d : Bytes} {synchronising : Bool}
    (h : run maxLiteral nest waits s = .ok (.incomplete (.literal n synchronising)))
    (hd : d.length = n) (hne : d ≠ []) :
    Byte.lf ∈ s ∧ run maxLiteral nest waits (s ++ d) = .ok (.incomplete .line) := by
  obtain ⟨hlf, next, more, hrun⟩ := resumes_of_announced h hd
  have hend := hrun [] (by simpa using hne)
  rw [List.append_nil, run_nil] at hend
  exact ⟨hlf, hend⟩

end Scan

end MailProtocol.Imap
