import MailProtocol.Toml.Scalar

/-!
# Lines of settings files

A settings file is a list of lines: headers that begin a table, and entries. A value can go on over
several lines inside of an array and nowhere else.

Each reader takes what it reads off the front of a list of tokens and returns the rest, which is
shorter (`Rest`), so reading ends.
-/

namespace MailProtocol.Toml

/-- A list of tokens shorter than `ts`. -/
abbrev Rest (ts : List Token) := { rest : List Token // rest.length < ts.length }

/-- The tokens without the blanks in front. -/
def skipBlanks (ts : List Token) : List Token := ts.dropWhile fun t => t matches .blank _

/-- The tokens without the blanks and line ends in front. -/
def skipLines (ts : List Token) : List Token := ts.dropWhile fun t => t matches .blank _ | .newline

/-- A token that numbers, dates and truth values are made of. -/
def isScalar (t : Token) : Bool := t matches .bare _ | .plus | .period | .colon

/-- The tokens without the scalar ones in front. -/
def skipScalar (ts : List Token) : List Token := ts.dropWhile isScalar

theorem length_skipBlanks (ts : List Token) : (skipBlanks ts).length ≤ ts.length :=
  (List.dropWhile_suffix _).length_le

theorem length_skipLines (ts : List Token) : (skipLines ts).length ≤ ts.length :=
  (List.dropWhile_suffix _).length_le

theorem length_skipScalar (ts : List Token) : (skipScalar ts).length ≤ ts.length :=
  (List.dropWhile_suffix _).length_le

theorem length_of_skipBlanks {ts after : List Token} {t : Token}
    (h : skipBlanks ts = t :: after) : after.length < ts.length := by
  have := h ▸ length_skipBlanks ts
  simp only [List.length_cons] at this
  omega

theorem length_skipBlanks_of_skipBlanks {ts after : List Token} {t : Token}
    (h : skipBlanks ts = t :: after) : (skipBlanks after).length < ts.length :=
  Nat.lt_of_le_of_lt (length_skipBlanks after) (length_of_skipBlanks h)

theorem length_of_skipLines {ts after : List Token} {t : Token}
    (h : skipLines ts = t :: after) : after.length < ts.length := by
  have := h ▸ length_skipLines ts
  simp only [List.length_cons] at this
  omega

/-! ## Keys -/

/-- The part of a key that a token is. -/
def key? : Token → Option String
  | .bare s => some (String.ofList s)
  | .quoted s false => some s
  | _ => none

/-- Read a key: parts with periods between, and blanks around these. -/
def path? (ts : List Token) : Option (List String × Rest ts) :=
  match ts with
  | [] => none
  | t :: more => do
    let name ← key? t
    match _h : skipBlanks more with
    | .period :: after =>
      have hafter : (skipBlanks after).length < (t :: more).length :=
        Nat.lt_succ_of_lt (length_skipBlanks_of_skipBlanks _h)
      let (path, rest) ← path? (skipBlanks after)
      return (name :: path, ⟨rest, Nat.lt_trans rest.2 hafter⟩)
    | _ => return ([name], ⟨skipBlanks more, Nat.lt_succ_of_le (length_skipBlanks more)⟩)
termination_by ts.length
decreasing_by exact hafter

/-! ## Values -/

/-- Read a number, a date or a truth value that begins with the token `t`. A date and a time may be
apart by one space. -/
def scalar? (t : Token) (more : List Token) : Option (Value × Rest (t :: more)) :=
  let alone : Option (Value × Rest (t :: more)) := do
    let v ← Scalar.ofRun? (t :: more.takeWhile isScalar)
    return (v, ⟨skipScalar more, Nat.lt_succ_of_le (length_skipScalar more)⟩)
  match t, more, alone with
  | .bare s, .blank true :: .bare hour :: more, alone =>
    if Scalar.isNumeric s ∧ Scalar.isDate s then
      if Scalar.isAfterHour (more.takeWhile isScalar) then
        some (.dateTime, ⟨skipScalar more, by
          have := length_skipScalar more
          simp only [List.length_cons]
          omega⟩)
      else none
    else alone
  | _, _, alone => alone

mutual

/-- Read a value. -/
def value? (ts : List Token) : Option (Value × Rest ts) :=
  match ts with
  | [] => none
  | .quoted s _ :: more => some (.string s, ⟨more, Nat.lt_succ_self _⟩)
  | .openBracket :: more => do
    let (items, rest) ← items? more
    return (.array items, ⟨rest, Nat.lt_succ_of_lt rest.2⟩)
  | .openBrace :: more =>
    have hmore := length_skipBlanks more
    match _h : skipBlanks more with
    | .closeBrace :: after =>
      some (.table [], ⟨after, Nat.lt_succ_of_lt (length_of_skipBlanks _h)⟩)
    | _ => do
      let (entries, rest) ← entries? [] (skipBlanks more)
      return (.table entries, ⟨rest, Nat.lt_succ_of_lt (Nat.lt_of_lt_of_le rest.2 hmore)⟩)
  | t :: more => scalar? t more
termination_by (ts.length, 0)
decreasing_by
  all_goals
    simp only [Prod.lex_def, List.length_cons]
    omega

/-- Read the items of an array whose opening bracket has been read. A comma may follow the last. -/
def items? (ts : List Token) : Option (List Value × Rest ts) :=
  have hts := length_skipLines ts
  match _h : skipLines ts with
  | .closeBracket :: after => some ([], ⟨after, length_of_skipLines _h⟩)
  | _ => do
    let (v, next) ← value? (skipLines ts)
    have hnext := next.2
    match _h' : skipLines next with
    | .closeBracket :: after =>
      return ([v], ⟨after, by have := length_of_skipLines _h'; omega⟩)
    | .comma :: after =>
      have := length_of_skipLines _h'
      let (items, rest) ← items? after
      return (v :: items, ⟨rest, by have := rest.2; omega⟩)
    | _ => none
termination_by (ts.length, 1)
decreasing_by
  all_goals
    simp only [Prod.lex_def]
    omega

/-- Read the entries of a table in braces from the next one on, after those read before. No comma
may follow the last. -/
def entries? (done : Entries) (ts : List Token) : Option (Entries × Rest ts) := do
  let (path, next) ← path? ts
  have hnext := next.2
  match _h : skipBlanks next with
  | .equals :: after =>
    have := length_of_skipBlanks _h
    have := length_skipBlanks after
    let (v, next) ← value? (skipBlanks after)
    have := next.2
    let done ← insertPath? v path done
    match _h' : skipBlanks next with
    | .closeBrace :: after =>
      return (done, ⟨after, by have := length_of_skipBlanks _h'; omega⟩)
    | .comma :: after =>
      have := length_of_skipBlanks _h'
      have := length_skipBlanks after
      let (entries, rest) ← entries? done (skipBlanks after)
      return (entries, ⟨rest, by have := rest.2; omega⟩)
    | _ => none
  | _ => none
termination_by (ts.length, 1)
decreasing_by
  all_goals
    simp only [Prod.lex_def]
    omega

end

/-! ## Lines -/

/-- A line. -/
inductive Line where
  /-- The beginning of a table or, in double brackets, of one more table of an array. -/
  | header (path : List String) (inArray : Bool)
  | entry (path : List String) (v : Value)

/-- Read a header whose brackets have been read, up to its closing brackets. -/
def header? (inArray : Bool) (ts : List Token) : Option (Line × Rest ts) := do
  have hts := length_skipBlanks ts
  let (path, next) ← path? (skipBlanks ts)
  have hnext := next.2
  match _h : skipBlanks next, inArray with
  | .closeBracket :: after, false =>
    return (.header path false, ⟨after, by have := length_of_skipBlanks _h; omega⟩)
  | .closeBracket :: .closeBracket :: after, true =>
    return (.header path true, ⟨after, by
      have := length_of_skipBlanks _h
      simp only [List.length_cons] at this
      omega⟩)
  | _, _ => none

/-- Read an entry. -/
def entry? (ts : List Token) : Option (Line × Rest ts) := do
  let (path, next) ← path? ts
  have hnext := next.2
  match _h : skipBlanks next with
  | .equals :: after =>
    have := length_of_skipBlanks _h
    have := length_skipBlanks after
    let (v, rest) ← value? (skipBlanks after)
    return (.entry path v, ⟨rest, by have := rest.2; omega⟩)
  | _ => none

/-- Read a line without its end. -/
def line? (ts : List Token) : Option (Line × Rest ts) :=
  match ts with
  | .openBracket :: .openBracket :: more => do
    let (line, rest) ← header? true more
    return (line, ⟨rest, Nat.lt_succ_of_lt (Nat.lt_succ_of_lt rest.2)⟩)
  | .openBracket :: more => do
    let (line, rest) ← header? false more
    return (line, ⟨rest, Nat.lt_succ_of_lt rest.2⟩)
  | ts => entry? ts

/-- Read lines. -/
def lines? (ts : List Token) : Option (List Line) :=
  match _hts : skipLines ts with
  | [] => some []
  | t :: more => do
    let (line, next) ← line? (t :: more)
    have := Nat.lt_of_lt_of_le next.2 (_hts ▸ length_skipLines ts)
    match _h : skipBlanks next with
    | [] => return [line]
    | .newline :: after =>
      have := length_of_skipBlanks _h
      return line :: (← lines? after)
    | _ => none
termination_by ts.length

end MailProtocol.Toml
