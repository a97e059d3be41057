import MailProtocol.Token.Lookup

/-!
# Sets of tokens

A `TokenSet` holds at most one token of each identity, ordered by key. A token that is inserted
twice stays as it was the first time, with its case and its arguments, and the operations of set
algebra keep the tokens of their left operand.

Keyed operations stop as soon as the order says that a key cannot follow.
-/

namespace MailProtocol

/-- Tokens of distinct identities, in the order of their keys. -/
structure TokenSet where
  tokens : List Token
  ordered : tokens.Pairwise (fun t u => t.key < u.key)

namespace TokenSet

/-! ## Ordered lists -/

/-- Put a token at its place in an ordered list, unless its identity is there. -/
def place (t : Token) : List Token → List Token
  | [] => [t]
  | u :: us =>
    if t.key < u.key then t :: u :: us
    else if t.key = u.key then u :: us
    else u :: place t us

/-- Look a key up in an ordered list. -/
def seek (key : String) : List Token → Option Token
  | [] => none
  | u :: us => if key < u.key then none else if key = u.key then some u else seek key us

theorem mem_place {t u : Token} {ts : List Token} (h : u ∈ place t ts) : u = t ∨ u ∈ ts := by
  induction ts with
  | nil => simpa [place] using h
  | cons v vs ih =>
    unfold place at h
    split at h
    · simpa using h
    · split at h
      · exact .inr h
      · rcases List.mem_cons.1 h with rfl | h
        · simp
        · rcases ih h with rfl | h <;> simp [*]

theorem pairwise_place (t : Token) {ts : List Token}
    (h : ts.Pairwise (fun t u => t.key < u.key)) :
    (place t ts).Pairwise (fun t u => t.key < u.key) := by
  induction ts with
  | nil => simp [place]
  | cons v vs ih =>
    have hv : ∀ w ∈ vs, v.key < w.key := (List.pairwise_cons.1 h).1
    unfold place
    split
    · next hlt =>
      refine List.pairwise_cons.2 ⟨fun w hw => ?_, h⟩
      rcases List.mem_cons.1 hw with rfl | hw
      · exact hlt
      · exact String.lt_trans hlt (hv w hw)
    · next hlt =>
      split
      · exact h
      · next hne =>
        refine List.pairwise_cons.2 ⟨fun w hw => ?_, ih (List.pairwise_cons.1 h).2⟩
        rcases mem_place hw with rfl | hw
        · have hle := String.not_lt.1 hlt
          exact Decidable.byContradiction fun hge =>
            hne (String.le_antisymm (String.not_lt.1 hge) hle)
        · exact hv w hw

/-! ## Sets -/

/-- The empty set. -/
def empty : TokenSet := ⟨[], .nil⟩

/-- Add a token, unless its identity is there. -/
def insert (s : TokenSet) (t : Token) : TokenSet := ⟨place t s.tokens, pairwise_place t s.ordered⟩

/-- Add tokens in order. -/
def extend (s : TokenSet) (ts : List Token) : TokenSet := ts.foldl insert s

/-- The set of the tokens of a list. -/
def ofList (ts : List Token) : TokenSet := empty.extend ts

/-- The token of this name. -/
def find? (s : TokenSet) (name : String) : Option Token := seek (Text.upper name) s.tokens

/-- A token of this key is there. -/
def hasKey (s : TokenSet) (key : String) : Bool := (seek key s.tokens).isSome

/-- A token of the same identity is there. -/
def contains (s : TokenSet) (t : Token) : Bool := s.hasKey t.key

/-- The tokens that satisfy `p`. -/
def filter (s : TokenSet) (p : Token → Bool) : TokenSet :=
  ⟨s.tokens.filter p, s.ordered.filter p⟩

/-- Take a token out. -/
def erase (s : TokenSet) (t : Token) : TokenSet := s.filter (·.key != t.key)

/-- The tokens of `s`, and those of `u` whose identity `s` lacks. -/
def union (s u : TokenSet) : TokenSet := s.extend u.tokens

/-- The tokens of `s` whose identity `u` has. -/
def inter (s u : TokenSet) : TokenSet := s.filter u.contains

/-- The tokens of `s` whose identity `u` lacks. -/
def diff (s u : TokenSet) : TokenSet := s.filter (!u.contains ·)

/-- Every identity of `s` is one of `u`. -/
def isSubset (s u : TokenSet) : Bool := s.tokens.all u.contains

/-- Every identity of `u` is one of `s`. -/
def isSuperset (s u : TokenSet) : Bool := u.isSubset s

/-- No identity of `s` is one of `u`. -/
def isDisjoint (s u : TokenSet) : Bool := !s.tokens.any u.contains

/-- Both sets have the same identities. -/
def same (s u : TokenSet) : Bool := Token.sameAll s.tokens u.tokens

/-- The set with all its parts, for diagnostics. -/
def detail (s : TokenSet) : String :=
  "\x7b" ++ ", ".intercalate (s.tokens.map Token.detail) ++ "\x7d"

end TokenSet

end MailProtocol
