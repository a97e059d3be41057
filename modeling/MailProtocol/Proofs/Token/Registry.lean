import MailProtocol.Proofs.Token.Sets
import MailProtocol.Token.Registry

/-!
# Resolving names

The names of a registry are looked up from the last one, until one is alike (`Registry.Counts`). It
comes to the same to keep a table under the names in upper case, in which a later registration takes
the place of an earlier one (`Registry.table`).

Names that are alike have one key, so they resolve together (`Registry.registered_or_fresh`): to the
registered token that counts, or each to a fresh token that carries it as it is.
-/

namespace MailProtocol.Registry

variable {r : Registry} {name v : String}

/-! ## Looking up in a list and in a table -/

/-- The token of each name under the name in upper case. -/
def table (r : Registry) : Std.HashMap String Token :=
  r.names.foldl (fun m n => m.insert (Text.upper n) (.known n)) ∅

/-- Of names that have one key the last one is filed. -/
theorem getElem?_foldl_insert (names : List String) (m : Std.HashMap String Token) (key : String) :
    (names.foldl (fun m n => m.insert (Text.upper n) (.known n)) m)[key]?
      = ((names.reverse.find? (Text.upper · == key)).map Token.known).or m[key]? := by
  induction names generalizing m with
  | nil => rfl
  | cons n names ih =>
    rw [List.foldl_cons, ih, Std.HashMap.getElem?_insert, List.reverse_cons, List.find?_append]
    cases names.reverse.find? (Text.upper · == key) with
    | some later => simp only [Option.map_some, Option.some_or]
    | none =>
      rw [List.find?_singleton]
      cases Text.upper n == key <;> rfl

theorem getElem?_table (r : Registry) (name : String) :
    r.table[Text.upper name]? = r.lookup? name := by
  rw [table, getElem?_foldl_insert, Std.HashMap.getElem?_empty, Option.or_none]
  rfl

theorem isWellKnown_eq (r : Registry) (t : Token) :
    r.isWellKnown t = (r.lookup? t.name).isSome := by
  rw [isWellKnown, lookup?, Option.isSome_map, List.isSome_find?, List.any_reverse]

theorem contains_table (r : Registry) (t : Token) : r.table.contains t.key = r.isWellKnown t := by
  rw [Std.HashMap.contains_eq_isSome_getElem?, Token.key, getElem?_table, isWellKnown_eq]

/-! ## The name that counts -/

/-- Of the registered names that are alike to `name`, `v` is the last. -/
def Counts (r : Registry) (v name : String) : Prop :=
  ∃ earlier later, r.names = earlier ++ v :: later ∧ Text.Alike v name
    ∧ ∀ w ∈ later, ¬Text.Alike w name

theorem lookup?_eq_some_iff {t : Token} :
    r.lookup? name = some t ↔ ∃ v, r.Counts v name ∧ t = .known v := by
  have hfound (v : String) : r.names.reverse.find? (Text.eqIgnoreCase · name) = some v
      ↔ r.Counts v name := by
    simp only [List.find?_eq_some_iff_append, Bool.not_eq_true', ← Bool.not_eq_true,
      Text.eqIgnoreCase_iff_alike, List.reverse_eq_append_iff, List.reverse_cons,
      List.append_assoc, List.singleton_append]
    constructor
    · rintro ⟨halike, later, earlier, hnames, hlater⟩
      exact ⟨earlier.reverse, later.reverse, hnames, halike,
        fun w hw => hlater w (List.mem_reverse.1 hw)⟩
    · rintro ⟨earlier, later, hnames, halike, hlater⟩
      refine ⟨halike, later.reverse, earlier.reverse, ?_,
        fun w hw => hlater w (List.mem_reverse.1 hw)⟩
      rw [List.reverse_reverse, List.reverse_reverse, hnames]
  rw [lookup?, Option.map_eq_some_iff]
  simp only [hfound, eq_comm]

theorem lookup?_eq_none_iff : r.lookup? name = none ↔ ∀ v ∈ r.names, ¬Text.Alike v name := by
  simp only [lookup?, Option.map_eq_none_iff, List.find?_eq_none, List.mem_reverse,
    Text.eqIgnoreCase_iff_alike]

/-- Names that are alike are looked up alike. -/
theorem lookup?_congr (r : Registry) {a b : String} (h : Text.Alike a b) :
    r.lookup? a = r.lookup? b := by
  rw [← getElem?_table, ← getElem?_table, Text.alike_iff_upper_eq.1 h]

/-! ## Resolving a name -/

theorem lookupOrCreate_of_some {t : Token} (h : r.lookup? name = some t) :
    r.lookupOrCreate name = t := by
  rw [lookupOrCreate, h, Option.getD_some]

theorem lookupOrCreate_of_none (h : r.lookup? name = none) :
    r.lookupOrCreate name = .fresh name := by
  rw [lookupOrCreate, h, Option.getD_none]

/-- A name resolves to a token of the name. -/
theorem alike_lookupOrCreate (r : Registry) (name : String) :
    Text.Alike (r.lookupOrCreate name).name name := by
  have hkey : (r.lookupOrCreate name).key = (Token.fresh name).key :=
    Token.same_iff_key_eq.1 (r.same_lookupOrCreate (.fresh name))
  exact Text.alike_iff_upper_eq.2 hkey

theorem isWellKnown_lookupOrCreate (r : Registry) (name : String) :
    r.isWellKnown (r.lookupOrCreate name) = (r.lookupOrCreate name).wellKnown := by
  rw [isWellKnown_eq, r.lookup?_congr (r.alike_lookupOrCreate name), lookupOrCreate]
  cases hfound : r.lookup? name with
  | none => rfl
  | some t =>
    obtain ⟨v, -, rfl⟩ := lookup?_eq_some_iff.1 hfound
    rfl

/-- Nothing is alike to the resolved name but what is alike to the name. -/
theorem alike_lookupOrCreate_iff {s : String} :
    Text.Alike (r.lookupOrCreate name).name s ↔ Text.Alike name s := by
  rw [Text.alike_iff_upper_eq, Text.alike_iff_upper_eq,
    Text.alike_iff_upper_eq.1 (r.alike_lookupOrCreate name)]

/-- A name resolves to a token without arguments. -/
theorem args_lookupOrCreate (r : Registry) (name : String) : (r.lookupOrCreate name).args = [] := by
  cases hfound : r.lookup? name with
  | none =>
    rw [lookupOrCreate_of_none hfound]
    rfl
  | some t =>
    obtain ⟨v, -, rfl⟩ := lookup?_eq_some_iff.1 hfound
    rw [lookupOrCreate_of_some hfound]
    rfl

/-- How names are resolved, whatever has been registered. -/
structure Resolves (r : Registry) : Prop where
  /-- In the table the same is found as in the list. -/
  lookup_table : ∀ name, r.table[Text.upper name]? = r.lookup? name
  contains_table : ∀ t, r.table.contains t.key = r.isWellKnown t
  alike : ∀ name, Text.Alike (r.lookupOrCreate name).name name
  /-- Names that are alike resolve to one identity, whether it is told by the key, by the bytes of
  the name or by the hash. -/
  same : ∀ a b, Text.Alike a b → (r.lookupOrCreate a).same (r.lookupOrCreate b) = true
    ∧ Bytes.eqIgnoreCase (Utf8.encode (r.lookupOrCreate a).name)
        (Utf8.encode (r.lookupOrCreate b).name) = true
    ∧ (r.lookupOrCreate a).hashKey = (r.lookupOrCreate b).hashKey
  /-- Both resolve to the registered token that counts, or each to a fresh one that carries it. -/
  registered_or_fresh : ∀ a b, Text.Alike a b →
    (∃ v, r.Counts v a ∧ r.lookupOrCreate a = { name := v, args := [], wellKnown := true }
        ∧ r.lookupOrCreate b = { name := v, args := [], wellKnown := true })
      ∨ ((∀ v ∈ r.names, ¬Text.Alike v a)
        ∧ r.lookupOrCreate a = { name := a, args := [], wellKnown := false }
        ∧ r.lookupOrCreate b = { name := b, args := [], wellKnown := false })
  again : ∀ name, r.lookupOrCreate (r.lookupOrCreate name).name = r.lookupOrCreate name
  wellKnown_flag : ∀ name, r.isWellKnown (r.lookupOrCreate name) = (r.lookupOrCreate name).wellKnown
  isWellKnown_iff : ∀ t, r.isWellKnown t = true ↔ ∃ u, r.lookup? t.name = some u

theorem same_of_alike (r : Registry) {a b : String} (h : Text.Alike a b) :
    (r.lookupOrCreate a).same (r.lookupOrCreate b) = true := by
  have ha := Text.alike_iff_upper_eq.1 (r.alike_lookupOrCreate a)
  have hb := Text.alike_iff_upper_eq.1 (r.alike_lookupOrCreate b)
  exact Token.same_iff_key_eq.2 ((ha.trans (Text.alike_iff_upper_eq.1 h)).trans hb.symm)

theorem registered_or_fresh (r : Registry) {a b : String} (h : Text.Alike a b) :
    (∃ v, r.Counts v a ∧ r.lookupOrCreate a = .known v ∧ r.lookupOrCreate b = .known v)
      ∨ ((∀ v ∈ r.names, ¬Text.Alike v a)
        ∧ r.lookupOrCreate a = .fresh a ∧ r.lookupOrCreate b = .fresh b) := by
  have hlookup := r.lookup?_congr h
  cases hfound : r.lookup? a with
  | none =>
    rw [hfound] at hlookup
    exact .inr ⟨lookup?_eq_none_iff.1 hfound, lookupOrCreate_of_none hfound,
      lookupOrCreate_of_none hlookup.symm⟩
  | some t =>
    rw [hfound] at hlookup
    obtain ⟨v, hv, rfl⟩ := lookup?_eq_some_iff.1 hfound
    exact .inl ⟨v, hv, lookupOrCreate_of_some hfound, lookupOrCreate_of_some hlookup.symm⟩

/-- Every registry looks names up without regard to case, and resolves every name. -/
theorem resolves (r : Registry) : r.Resolves where
  lookup_table := r.getElem?_table
  contains_table := r.contains_table
  alike := r.alike_lookupOrCreate
  same a b h := by
    have hsame := r.same_of_alike h
    exact ⟨hsame, (Token.same_eq _ _).symm.trans hsame, Token.hashKey_eq_iff.2 hsame⟩
  registered_or_fresh a b h := r.registered_or_fresh h
  again := r.lookupOrCreate_name
  wellKnown_flag := r.isWellKnown_lookupOrCreate
  isWellKnown_iff t := by rw [isWellKnown_eq, Option.isSome_iff_exists]

/-- A later registration of a name replaces an earlier one, and what is not registered stays as it
was received. -/
example : let r : Registry := { name := "X", names := ["Beta", "Gamma", "BETA"] }
    r.lookupOrCreate "beta" = .known "BETA" ∧ r.lookupOrCreate "ßeta" = .fresh "ßeta" := by decide

end MailProtocol.Registry
