import MailProtocol.Toml.Token
import MailProtocol.Toml.Value

/-!
# Numbers, dates and truth values

A value that is neither a string nor has parts is written in bare words and signs: `-17`, `0x1F`,
`6.02e+23`, `07:32:00.5`, `true`. `Scalar.ofRun?` finds the value of such a run of tokens.

Integers lie in 64 bits with a sign. Underscores may stand between digits, and a decimal number has
no needless zero in front. The only further check on a float is that it is not too large; a date is
known by its signs alone.
-/

namespace MailProtocol.Toml.Scalar

/-! ## Digits -/

/-- A digit of the base `radix`, or the underscore between two digits. -/
def isGrouped (radix : Nat) (c : Char) : Bool := (digit? radix c).isSome || c == '_'

/-- The digits at the front, and what follows them. There must be some, and each underscore must
stand between two. -/
def digits? (radix : Nat) (s : List Char) : Option (List Char × List Char) :=
  let run := s.takeWhile (isGrouped radix)
  if (run.splitOn '_').any (·.isEmpty) then none
  else some (run.filter (· != '_'), s.dropWhile (isGrouped radix))

/-- The digits at the front of a decimal number, which has no needless zero in front. -/
def decimal? (s : List Char) : Option (List Char × List Char) :=
  match digits? 10 s with
  | some ('0' :: _ :: _, _) => none
  | result => result

/-- A number's sign, which is set for a negative one, and the rest. -/
def sign : List Char → Bool × List Char
  | '-' :: s => (true, s)
  | s => (false, s)

/-! ## Integers -/

/-- An integer of 64 bits. -/
def bounded? (n : Int) : Option Value :=
  if Int64.minValue.toInt ≤ n ∧ n ≤ Int64.maxValue.toInt then some (.integer n) else none

/-- An integer of digits of the base `radix`. -/
def radixInteger? (radix : Nat) (s : List Char) : Option Value := do
  match ← digits? radix s with
  | (digits, []) => bounded? (← number? radix digits)
  | _ => none

/-- A decimal integer. -/
def integer? (s : List Char) : Option Value := do
  let (negative, s) := sign s
  match ← decimal? s with
  | (digits, []) =>
    let n ← number? 10 digits
    bounded? (if negative then -n else n)
  | _ => none

/-! ## Floats -/

/-- The least number that is too large for a float of 64 bits. -/
def floatBound : Nat := Nat.pow 2 1024 - Nat.pow 2 970

/-- The number `m * 10 ^ e` is not too large for a float. The number of digits before the point
settles it for all but numbers with 309 of them. -/
def isFinite (m : Nat) (e : Int) : Bool :=
  let size := (Nat.toDigits 10 m).length + e
  m = 0 || size < 309 ||
    (size = 309 && m * Nat.pow 10 e.toNat < floatBound * Nat.pow 10 (-e).toNat)

/-- A float of these digits before the point, after it, and in the exponent. -/
def float? (whole fraction : List Char) (exponent : Bool × List Char) : Option Value := do
  let m ← number? 10 (whole ++ fraction)
  let e : Int ← number? 10 exponent.2
  if isFinite m ((if exponent.1 then -e else e) - fraction.length) then some .float else none

/-- A float, from what follows its last digit before the exponent on. A plus sign in the exponent is
a token of its own. -/
def exponent? (whole fraction : List Char) : List Char → List Token → Option Value
  | [], [] => float? whole fraction (false, [])
  | [e], [.plus, .bare s] =>
    if e = 'e' ∨ e = 'E' then do
      match ← digits? 10 s with
      | (digits, []) => float? whole fraction (false, digits)
      | _ => none
    else none
  | e :: s, [] =>
    if e = 'e' ∨ e = 'E' then do
      let (negative, s) := sign s
      match ← digits? 10 s with
      | (digits, []) => float? whole fraction (negative, digits)
      | _ => none
    else none
  | _, _ => none

/-! ## Runs -/

/-- A bare word that is, or begins, a date: it has the letter between a date and a time, or a dash
that belongs neither to a sign nor to an exponent. -/
def isDate (s : List Char) : Bool :=
  let pairs := s.zip (s.drop 1)
  s.contains 'T' || s.contains 't' ||
    ((s.drop 1).contains '-' && !pairs.contains ('e', '-') && !pairs.contains ('E', '-'))

/-- What follows the hour and the colon of a time: minutes and seconds, and possibly a fraction and
a distance from universal time. -/
def isTime (run : List Token) : Bool :=
  match run with
  | .bare _ :: .colon :: .bare _ :: rest =>
    let rest := match rest with
      | .period :: .bare _ :: rest => rest
      | rest => rest
    let rest := match rest with
      | .plus :: .bare _ :: rest => rest
      | rest => rest
    match rest with
    | [] | [.colon, .bare _] => true
    | _ => false
  | _ => false

/-- What follows a date and hour: nothing, or a colon and the rest of a time. -/
def isAfterHour : List Token → Bool
  | [] => true
  | .colon :: run => isTime run
  | _ => false

/-- The words that are floats. -/
def floatWords : List (List Char) := ["inf".toList, "-inf".toList, "nan".toList, "-nan".toList]

/-- A number whose first word is `s`. -/
def ofWord? (s : List Char) (more : List Token) : Option Value :=
  match s, more with
  | '0' :: 'x' :: s, [] => radixInteger? 16 s
  | '0' :: 'o' :: s, [] => radixInteger? 8 s
  | '0' :: 'b' :: s, [] => radixInteger? 2 s
  | '0' :: 'x' :: _, _ | '0' :: 'o' :: _, _ | '0' :: 'b' :: _, _ => none
  | s, more =>
    if s.contains 'e' || s.contains 'E' then do
      let (whole, rest) ← decimal? (sign s).2
      exponent? whole [] rest more
    else match more with
      | .period :: .bare after :: more => do
        match ← decimal? (sign s).2 with
        | (whole, []) =>
          let (fraction, rest) ← digits? 10 after
          exponent? whole fraction rest more
        | _ => none
      | [] => if floatWords.contains s then some .float else integer? s
      | _ => none

/-- The word begins a number or a date. -/
def isNumeric (s : List Char) : Bool :=
  s = "inf".toList || s = "nan".toList || (s.head?.any fun c => c = '-' || c.isDigit)

/-- The value of a run of bare words and signs. -/
def ofRun? : List Token → Option Value
  | .plus :: .bare s :: more => ofWord? s more
  | .bare s :: more =>
    if s = "true".toList ∨ s = "false".toList then
      if more.isEmpty then some (.boolean (s = "true".toList)) else none
    else if !isNumeric s then none
    else if isDate s then (if isAfterHour more then some .dateTime else none)
    else match more with
      | .colon :: more => if isTime more then some .dateTime else none
      | more => ofWord? s more
  | _ => none

end MailProtocol.Toml.Scalar
