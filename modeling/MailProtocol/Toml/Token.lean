/-!
# Lexemes of settings files

A settings file is written in TOML. `Toml.Token.scan?` cuts its text into tokens: bare words, quoted
strings, line ends, blanks and signs. Comments are left out; they reach to the end of their line.

A line may end in CRLF, which counts as a line feed everywhere (`foldLineEnds`), and a byte order
mark at the front is ignored. No other control character than a tab may stand anywhere, so a string
cannot hide one except by an escape.
-/

namespace MailProtocol.Toml

/-- A token. -/
inductive Token where
  /-- Spaces and tabs; `single` if it is one space. -/
  | blank (single : Bool)
  | newline
  | equals
  | period
  | comma
  | colon
  | plus
  | openBrace
  | closeBrace
  | openBracket
  | closeBracket
  /-- A run of letters, digits, dashes and underscores. -/
  | bare (s : List Char)
  /-- A string between quotes, its escapes taken off; `multiline` if it has three on each side. -/
  | quoted (s : String) (multiline : Bool)
deriving DecidableEq, Repr

/-! ## Characters -/

/-- A space or a tab. -/
def isBlank (c : Char) : Bool := c == ' ' || c == '\t'

/-- A character of a bare word. -/
def isBare (c : Char) : Bool := c.isAlphanum || c == '-' || c == '_'

/-- A character of a comment. -/
def isComment (c : Char) : Bool := c == '\t' || ' ' ≤ c

/-- A character that a string on one line may hold as it is. -/
def isText (c : Char) : Bool := isComment c && c != '\x7f'

/-- What a digit of the base `radix` stands for. -/
def digit? (radix : Nat) (c : Char) : Option Nat :=
  let n :=
    if c.isDigit then c.toNat - '0'.toNat
    else if 'a' ≤ c ∧ c ≤ 'f' then c.toNat - 'a'.toNat + 10
    else if 'A' ≤ c ∧ c ≤ 'F' then c.toNat - 'A'.toNat + 10
    else radix
  if n < radix then some n else none

/-- The number that digits stand for. -/
def number? (radix : Nat) (s : List Char) : Option Nat :=
  s.foldlM (fun n c => (digit? radix c).map (radix * n + ·)) 0

/-! ## Strings -/

/-- The character of a number in hexadecimal digits, if there is such a character. -/
def unicode? (digits : List Char) : Option Char := do
  let n ← number? 16 digits
  if n.isValidChar then some (Char.ofNat n) else none

/-- The character that an escape of one letter stands for. -/
def escape? (c : Char) : Option Char :=
  [('"', '"'), ('\\', '\\'), ('b', '\x08'), ('f', '\x0c'), ('n', '\n'), ('r', '\r'),
    ('t', '\t')].lookup c

/-- The two kinds of quotes. -/
inductive Quote where
  /-- Double quotes, between which a backslash begins an escape. -/
  | basic
  /-- Single quotes, between which every character stands for itself. -/
  | literal
deriving DecidableEq, Repr

/-- The quote itself. -/
def Quote.mark : Quote → Char
  | basic => '"'
  | literal => '\''

/-- Where reading stands with respect to a line end that a backslash takes away. -/
inductive Gap where
  | none
  /-- After the backslash: only blanks may come before the line end. -/
  | beforeLineEnd
  /-- After the line end: all blanks and line ends that follow are taken away as well. -/
  | afterLineEnd
deriving DecidableEq, Repr

/-- What a string of several lines ends with: three quotes and, of further ones, up to two that
still belong to the string. -/
def finish (mark : Char) (done rest : List Char) : String × List Char :=
  let inside := (rest.takeWhile (· == mark)).take 2
  (String.ofList (done.reverse ++ inside), rest.drop inside.length)

/-- Read on in a string of which `done` has been read, newest first. -/
def readString (q : Quote) (multiline : Bool) (gap : Gap) (done : List Char) :
    List Char → Option (String × List Char)
  | [] => none
  | c :: rest =>
    if gap = .beforeLineEnd then
      if isBlank c then readString q multiline .beforeLineEnd done rest
      else if c = '\n' then readString q multiline .afterLineEnd done rest
      else none
    else if gap = .afterLineEnd ∧ (isBlank c ∨ c = '\n') then
      readString q multiline .afterLineEnd done rest
    else if c = q.mark then
      if !multiline then some (String.ofList done.reverse, rest)
      else if [q.mark, q.mark].isPrefixOf rest then some (finish q.mark done (rest.drop 2))
      else readString q multiline .none (c :: done) rest
    else if c = '\\' ∧ q = .basic then
      match rest with
      | 'u' :: a :: b :: c :: d :: rest =>
        match unicode? [a, b, c, d] with
        | none => none
        | some u => readString q multiline .none (u :: done) rest
      | 'U' :: a :: b :: c :: d :: e :: f :: g :: h :: rest =>
        match unicode? [a, b, c, d, e, f, g, h] with
        | none => none
        | some u => readString q multiline .none (u :: done) rest
      | e :: rest =>
        if multiline ∧ isBlank e then readString q multiline .beforeLineEnd done rest
        else if multiline ∧ e = '\n' then readString q multiline .afterLineEnd done rest
        else match escape? e with
          | none => none
          | some u => readString q multiline .none (u :: done) rest
      | [] => none
    else if isText c ∨ (multiline ∧ c = '\n') then
      readString q multiline .none (c :: done) rest
    else none

/-- Read a string whose first quote has been read. A line end right after three quotes is not part
of the string. -/
def quoted? (q : Quote) (s : List Char) : Option (Token × List Char) :=
  if [q.mark, q.mark].isPrefixOf s then
    let s := s.drop 2
    let s := if s.head? = some '\n' then s.drop 1 else s
    (readString q true .none [] s).map fun (t, rest) => (.quoted t true, rest)
  else (readString q false .none [] s).map fun (t, rest) => (.quoted t false, rest)

/-! ## Tokens -/

namespace Token

/-- The signs. -/
def ofSign? : Char → Option Token
  | '\n' => some newline
  | '=' => some equals
  | '.' => some period
  | ',' => some comma
  | ':' => some colon
  | '+' => some plus
  | '\x7b' => some openBrace
  | '\x7d' => some closeBrace
  | '[' => some openBracket
  | ']' => some closeBracket
  | _ => none

/-- The token that begins with `c`, no token for a comment, and what follows. -/
def first? (c : Char) (s : List Char) : Option (Option Token × List Char) :=
  if isBlank c then
    some (some (blank (c = ' ' ∧ (s.takeWhile isBlank).isEmpty)), s.dropWhile isBlank)
  else if c = '#' then some (none, s.dropWhile isComment)
  else if c = Quote.basic.mark then (quoted? .basic s).map fun (t, rest) => (some t, rest)
  else if c = Quote.literal.mark then (quoted? .literal s).map fun (t, rest) => (some t, rest)
  else if isBare c then some (some (bare (c :: s.takeWhile isBare)), s.dropWhile isBare)
  else (ofSign? c).map fun t => (some t, s)

/-! ### What is left is shorter -/

theorem length_of_readString {q : Quote} {multiline : Bool} {gap : Gap} {done s : List Char}
    {t : String} {rest : List Char} (h : readString q multiline gap done s = some (t, rest)) :
    rest.length < s.length := by
  fun_induction readString q multiline gap done s
  case case6 | case7 =>
    simp only [finish, Option.some.injEq, Prod.mk.injEq] at h
    simp only [← h.2, List.length_cons, List.length_drop]
    omega
  all_goals first
    | simp at h
    | (rename_i ih
       have := ih h
       simp only [List.length_cons] at this ⊢
       omega)

theorem length_of_quoted? {q : Quote} {s : List Char} {t : Token} {rest : List Char}
    (h : quoted? q s = some (t, rest)) : rest.length < s.length := by
  unfold quoted? at h
  split at h <;> simp only [Option.map_eq_some_iff, Prod.mk.injEq] at h <;>
    obtain ⟨_, hr, _, rfl⟩ := h <;> have hr := length_of_readString hr
  · split at hr <;> simp only [List.length_drop] at hr <;> omega
  · exact hr

theorem length_of_first? {c : Char} {s : List Char} {t : Option Token} {rest : List Char}
    (h : first? c s = some (t, rest)) : rest.length ≤ s.length := by
  have hdrop (p : Char → Bool) : (s.dropWhile p).length ≤ s.length :=
    (List.dropWhile_suffix p).length_le
  unfold first? at h
  repeat' split at h
  all_goals simp only [Option.map_eq_some_iff, Option.some.injEq, Prod.mk.injEq] at h
  · exact h.2 ▸ hdrop _
  · exact h.2 ▸ hdrop _
  · obtain ⟨_, hq, _, rfl⟩ := h
    exact Nat.le_of_lt (length_of_quoted? hq)
  · obtain ⟨_, hq, _, rfl⟩ := h
    exact Nat.le_of_lt (length_of_quoted? hq)
  · exact h.2 ▸ hdrop _
  · obtain ⟨_, _, _, rfl⟩ := h
    exact Nat.le_refl _

/-- Cut on into tokens a text of which `done` has been cut, newest first. -/
def scanFrom? (done : List Token) : List Char → Option (List Token)
  | [] => some done.reverse
  | c :: s =>
    match _h : first? c s with
    | none => none
    | some (t, rest) => scanFrom? (t.toList ++ done) rest
termination_by s => s.length
decreasing_by exact Nat.lt_succ_of_le (length_of_first? _h)

/-- A line feed for each CRLF. -/
def foldLineEnds : List Char → List Char
  | '\r' :: '\n' :: s => '\n' :: foldLineEnds s
  | c :: s => c :: foldLineEnds s
  | [] => []

/-- The text without a byte order mark at its front. -/
def dropMark : List Char → List Char
  | '\uFEFF' :: s => s
  | s => s

/-- Cut a text into tokens, if it can be cut. -/
def scan? (s : String) : Option (List Token) := scanFrom? [] (dropMark (foldLineEnds s.toList))

end Token

end MailProtocol.Toml
