import MailProtocol.Token.Basic

/-!
# Registries of well-known tokens

A registry is the part of a vocabulary that is known beforehand: a list of names, looked up without
regard to case. Of names that differ only in case the one registered last counts, and the earlier
ones are as good as absent.

`Registry.lookupOrCreate` resolves a name received from the wire: to the registered token, spelled
as it was registered, or to a fresh token that carries the name as it came.
-/

namespace MailProtocol

/-- The known names of a vocabulary. -/
structure Registry where
  /-- The name of the vocabulary. -/
  name : String
  /-- The known names, in the order of their registration. -/
  names : List String
deriving DecidableEq, Repr

namespace Registry

/-- The registered token of a name. -/
def lookup? (r : Registry) (name : String) : Option Token :=
  (r.names.reverse.find? (Text.eqIgnoreCase · name)).map Token.known

/-- The registered token of a name or, if there is none, a fresh one. -/
def lookupOrCreate (r : Registry) (name : String) : Token :=
  (r.lookup? name).getD (Token.fresh name)

/-- The token of a name is the same as any token of that name. -/
theorem same_lookupOrCreate (r : Registry) (t : Token) :
    (r.lookupOrCreate t.name).same t = true := by
  unfold lookupOrCreate lookup?
  cases hfound : r.names.reverse.find? (Text.eqIgnoreCase · t.name) with
  | none => exact beq_self_eq_true t.key
  | some known =>
    have hsame := List.find?_some hfound
    exact hsame

/-- What holds of a name and of all that are registered holds of the name of its token. -/
theorem name_lookupOrCreate {P : String → Prop} (r : Registry) (hnames : ∀ n ∈ r.names, P n)
    {name : String} (h : P name) : P (r.lookupOrCreate name).name := by
  unfold lookupOrCreate lookup?
  cases hfound : r.names.reverse.find? (Text.eqIgnoreCase · name) with
  | none => exact h
  | some known => exact hnames known (List.mem_reverse.1 (List.mem_of_find?_eq_some hfound))

/-- The name of a token leads to the token. -/
theorem lookupOrCreate_name (r : Registry) (name : String) :
    r.lookupOrCreate (r.lookupOrCreate name).name = r.lookupOrCreate name := by
  have hsame := r.same_lookupOrCreate (.fresh name)
  have hkey : Text.upper (r.lookupOrCreate name).name = Text.upper name := beq_iff_eq.1 hsame
  cases hfound : r.lookup? name with
  | none =>
    have hname : (r.lookupOrCreate name).name = name := by rw [lookupOrCreate, hfound]; rfl
    rw [hname]
  | some token =>
    have hagain : r.lookup? (r.lookupOrCreate name).name = r.lookup? name := by
      simp only [lookup?, Text.eqIgnoreCase, hkey]
    show (r.lookup? _).getD _ = (r.lookup? name).getD _
    rw [hagain, hfound]
    rfl

/-- The token's name is registered. -/
def isWellKnown (r : Registry) (t : Token) : Bool := r.names.any (Text.eqIgnoreCase · t.name)

/-- The names that count, in the order of their registration. -/
def distinct : List String → List String
  | [] => []
  | n :: rest => if rest.any (Text.eqIgnoreCase · n) then distinct rest else n :: distinct rest

/-- The registered tokens. -/
def tokens (r : Registry) : List Token := (distinct r.names).map Token.known

/-- How many tokens are registered. -/
def size (r : Registry) : Nat := r.tokens.length

/-- The registry in a few words. -/
def describe (r : Registry) : String :=
  "Registry(" ++ r.name ++ ", " ++ toString r.size ++ " tokens)"

end Registry

end MailProtocol
