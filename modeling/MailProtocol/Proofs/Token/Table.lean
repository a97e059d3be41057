import MailProtocol.Proofs.Text.Utf8
import MailProtocol.Proofs.Token.Sets

/-!
# Sets as tables

A `TokenTable` files tokens under keys that are kept beside them, in the order of the keys. Its
operations are those of a set, but each must file a token under the token's own key, or leave it
where it is, for the table to make sense.

However a table has come about (`TokenSet.Origin`), it has just the tokens of the set that has come
about in the same way, each under its own key (`TokenTable.Files`), and that set has the first token
that was offered of each key, of those that have not been taken out (`TokenSet.Origin.offered`).
-/

namespace MailProtocol

/-- Tokens that are filed under keys. -/
structure TokenTable where
  items : Std.TreeMap String Token

namespace TokenTable

/-- The empty table. -/
def empty : TokenTable := ⟨∅⟩

/-- What is filed, in the order of the keys. -/
def tokens (m : TokenTable) : List Token := m.items.toList.map Prod.snd

/-- File a token, unless one is filed under its key; tells whether it has been filed. -/
def insert (m : TokenTable) (t : Token) : Bool × TokenTable :=
  if m.items.contains t.key then (false, m) else (true, ⟨m.items.insert t.key t⟩)

/-- File tokens in order. -/
def extend (m : TokenTable) (ts : List Token) : TokenTable := ts.foldl (fun m t => (m.insert t).2) m

/-- The table of the tokens of a list. -/
def ofList (ts : List Token) : TokenTable := empty.extend ts

/-- Take out what is filed under the key of a token. -/
def remove (m : TokenTable) (t : Token) : Option Token × TokenTable :=
  (m.items[t.key]?, ⟨m.items.erase t.key⟩)

/-- What is filed under the keys that satisfy `keep`. -/
def filtered (m : TokenTable) (keep : String → Bool) : TokenTable :=
  ⟨m.items.filter fun key _ => keep key⟩

/-- What is filed in `m`, and the tokens of `n` under whose keys `m` has none. -/
def union (m n : TokenTable) : TokenTable := m.extend n.tokens

/-- What is filed in `m` under the keys of `n`. -/
def inter (m n : TokenTable) : TokenTable := m.filtered n.items.contains

/-- What is filed in `m` under other keys than those of `n`. -/
def diff (m n : TokenTable) : TokenTable := m.filtered (!n.items.contains ·)

/-- Something is filed under the key of a token. -/
def contains (m : TokenTable) (t : Token) : Bool := m.items.contains t.key

/-- What is filed under the key that a name has. -/
def find? (m : TokenTable) (name : String) : Option Token := m.items[Text.upper name]?

/-- Every key of `m` is one of `n`. -/
def isSubset (m n : TokenTable) : Bool := m.items.keys.all n.items.contains

/-- Every key of `n` is one of `m`. -/
def isSuperset (m n : TokenTable) : Bool := n.isSubset m

/-- No key of `m` is one of `n`. -/
def isDisjoint (m n : TokenTable) : Bool := !m.items.keys.any n.items.contains

/-- The table has the tokens of the set, each under its own key. -/
def Files (m : TokenTable) (s : TokenSet) : Prop :=
  ∀ key : String, m.items[key]? = Token.first? key s.tokens

variable {m n : TokenTable} {s u : TokenSet}

/-! ## Operations keep tokens under their keys -/

theorem files_empty : Files empty TokenSet.empty := fun _ => Std.TreeMap.getElem?_emptyc

namespace Files

theorem contains_items (h : Files m s) (key : String) : m.items.contains key = s.hasKey key := by
  rw [Std.TreeMap.contains_eq_isSome_getElem?, h, TokenSet.hasKey_eq]

theorem insert_snd (h : Files m s) (t : Token) : Files (m.insert t).2 (s.insert t) := by
  intro key
  rw [TokenTable.insert, h.contains_items, TokenSet.first?_insert, Token.first?_cons,
    TokenSet.hasKey_eq]
  split
  · next hsome =>
    -- what is filed already comes before the token
    rw [h]
    split
    · next heq =>
      obtain ⟨u, hu⟩ := Option.isSome_iff_exists.1 hsome
      rw [← heq, hu, Option.some_or]
    · exact Option.or_none.symm
  · next hnone =>
    simp only [Std.TreeMap.getElem?_insert, Std.compare_eq_iff_eq]
    split
    · next heq =>
      rw [Option.not_isSome_iff_eq_none] at hnone
      rw [← heq, hnone, Option.none_or]
    · rw [h]
      exact Option.or_none.symm

theorem extend (h : Files m s) (ts : List Token) : Files (m.extend ts) (s.extend ts) := by
  induction ts generalizing m s with
  | nil => exact h
  | cons t ts ih => exact ih (h.insert_snd t)

theorem remove_snd (h : Files m s) (t : Token) : Files (m.remove t).2 (s.erase t) := by
  intro key
  simp only [remove, Std.TreeMap.getElem?_erase, Std.compare_eq_iff_eq, TokenSet.first?_erase]
  by_cases heq : t.key = key
  · simp [heq]
  · simp [heq, Ne.symm heq, h key]

theorem filtered (h : Files m s) {keep : String → Bool} {p : Token → Bool}
    (hp : ∀ t, p t = keep t.key) : Files (m.filtered keep) (s.filter p) := by
  obtain rfl : p = fun t => keep t.key := funext hp
  intro key
  have hselect := Token.first?_filter key keep s.tokens
  rw [TokenTable.filtered, Std.TreeMap.getElem?_filter', h, TokenSet.filter, hselect]
  cases Token.first? key s.tokens with
  | none => exact ite_self none |>.symm
  | some t => rfl

theorem inter (h : Files m s) (k : Files n u) : Files (m.inter n) (s.inter u) :=
  h.filtered fun t => (k.contains_items t.key).symm

theorem diff (h : Files m s) (k : Files n u) : Files (m.diff n) (s.diff u) :=
  h.filtered fun t => congrArg (!·) (k.contains_items t.key).symm

/-- The entries are the tokens of the set in order, each under its key. -/
theorem toList_items (h : Files m s) : m.items.toList = s.tokens.map fun t => (t.key, t) := by
  have hmem (e : String × Token) :
      e ∈ m.items.toList ↔ e ∈ s.tokens.map fun t => (t.key, t) := by
    obtain ⟨key, t⟩ := e
    rw [Std.TreeMap.mem_toList_iff_getElem?_eq_some, h, List.mem_map]
    constructor
    · intro hfound
      obtain rfl := Token.key_of_first? hfound
      exact ⟨t, List.mem_of_find?_eq_some hfound, rfl⟩
    · rintro ⟨u, hu, heq⟩
      obtain ⟨rfl, rfl⟩ := Prod.mk.inj heq
      exact TokenSet.mem_tokens_iff.1 hu
  -- two lists in the order of the keys are the same if they have the same entries
  have hleft : m.items.toList.Pairwise fun a b => a.1 < b.1 := by
    refine Std.TreeMap.ordered_keys_toList.imp ?_
    intro a b hlt
    exact compareOfLessAndEq_eq_lt.1 hlt
  have hright : (s.tokens.map fun t => (t.key, t)).Pairwise fun a b => a.1 < b.1 :=
    List.pairwise_map.2 s.ordered
  have hnodup {l : List (String × Token)} (hl : l.Pairwise fun a b => a.1 < b.1) : l.Nodup := by
    refine hl.imp ?_
    rintro a b hlt rfl
    exact String.lt_irrefl _ hlt
  exact ((List.perm_ext_iff_of_nodup (hnodup hleft) (hnodup hright)).2 hmem).eq_of_pairwise
    (fun _ _ _ _ hlt hgt => absurd hlt (String.lt_asymm hgt)) hleft hright

theorem tokens_eq (h : Files m s) : m.tokens = s.tokens := by
  rw [tokens, h.toList_items, List.map_map]
  exact List.map_id s.tokens

theorem keys_items (h : Files m s) : m.items.keys = s.tokens.map Token.key := by
  rw [← Std.TreeMap.map_fst_toList_eq_keys, h.toList_items, List.map_map]
  rfl

theorem union (h : Files m s) (k : Files n u) : Files (m.union n) (s.union u) := by
  rw [TokenTable.union, k.tokens_eq]
  exact h.extend u.tokens

end Files

/-- Asked anything, the tables answer as the sets do. -/
structure Tells (m n : TokenTable) (s u : TokenSet) : Prop where
  contains : ∀ t, m.contains t = s.contains t
  find : ∀ name, m.find? name = s.find? name
  /-- A token is added if the set has none of its identity, and the set's own is taken out. -/
  insert : ∀ t, (m.insert t).1 = !s.contains t
  remove : ∀ t, (m.remove t).1 = s.find? t.name
  isSubset : m.isSubset n = s.isSubset u
  isSuperset : m.isSuperset n = s.isSuperset u
  isDisjoint : m.isDisjoint n = s.isDisjoint u

namespace Files

theorem isSubset_eq (h : Files m s) (k : Files n u) : m.isSubset n = s.isSubset u := by
  have hcontains : n.items.contains = u.hasKey := funext k.contains_items
  rw [isSubset, h.keys_items, List.all_map, hcontains]
  rfl

theorem isDisjoint_eq (h : Files m s) (k : Files n u) : m.isDisjoint n = s.isDisjoint u := by
  have hcontains : n.items.contains = u.hasKey := funext k.contains_items
  rw [isDisjoint, h.keys_items, List.any_map, hcontains]
  rfl

theorem getElem?_eq (h : Files m s) (name : String) : m.items[Text.upper name]? = s.find? name := by
  rw [h, s.find?_eq]
  rfl

theorem tells (h : Files m s) (k : Files n u) : Tells m n s u where
  contains t := h.contains_items t.key
  find name := h.getElem?_eq name
  insert t := by
    rw [TokenTable.insert, h.contains_items, TokenSet.contains]
    cases s.hasKey t.key <;> rfl
  remove t := h.getElem?_eq t.name
  isSubset := h.isSubset_eq k
  isSuperset := k.isSubset_eq h
  isDisjoint := h.isDisjoint_eq k

end Files

end TokenTable

/-! ## Sets of any origin -/

namespace TokenSet

/-- How a set has come about. -/
inductive Origin where
  | new
  | collected (ts : List Token)
  | inserted (o : Origin) (t : Token)
  | extended (o : Origin) (ts : List Token)
  | removed (o : Origin) (t : Token)
  | union (o o' : Origin)
  | inter (o o' : Origin)
  | diff (o o' : Origin)

namespace Origin

/-- The set that has come about. -/
def set : Origin → TokenSet
  | new => empty
  | collected ts => ofList ts
  | inserted o t => o.set.insert t
  | extended o ts => o.set.extend ts
  | removed o t => o.set.erase t
  | union o o' => o.set.union o'.set
  | inter o o' => o.set.inter o'.set
  | diff o o' => o.set.diff o'.set

/-- The table that has come about in the same way. -/
def table : Origin → TokenTable
  | new => .empty
  | collected ts => .ofList ts
  | inserted o t => (o.table.insert t).2
  | extended o ts => o.table.extend ts
  | removed o t => (o.table.remove t).2
  | union o o' => o.table.union o'.table
  | inter o o' => o.table.inter o'.table
  | diff o o' => o.table.diff o'.table

/-- All tokens that have been offered, in order and with those that were there already, less the
tokens of the names that have been taken out. -/
def offered : Origin → List Token
  | new => []
  | collected ts => ts
  | inserted o t => o.offered ++ [t]
  | extended o ts => o.offered ++ ts
  | removed o t => o.offered.filter fun u => !u.same t
  | union o o' => o.offered ++ o'.offered
  | inter o o' => o.offered.filter fun t => Token.contained o'.offered t
  | diff o o' => o.offered.filter fun t => !Token.contained o'.offered t

theorem files (o : Origin) : o.table.Files o.set := by
  induction o with
  | new => exact TokenTable.files_empty
  | collected ts => exact TokenTable.files_empty.extend ts
  | inserted o t ih => exact ih.insert_snd t
  | extended o ts ih => exact ih.extend ts
  | removed o t ih => exact ih.remove_snd t
  | union o o' ih ih' => exact ih.union ih'
  | inter o o' ih ih' => exact ih.inter ih'
  | diff o o' ih ih' => exact ih.diff ih'

/-- Under each key the set has what was offered first. -/
theorem first?_set (o : Origin) (key : String) :
    Token.first? key o.set.tokens = Token.first? key o.offered := by
  have hasKey_eq {o : Origin}
      (ih : ∀ key, Token.first? key o.set.tokens = Token.first? key o.offered) (key : String) :
      o.set.hasKey key = o.offered.any fun t => t.key == key := by
    rw [TokenSet.hasKey_eq, ih, Token.isSome_first?]
  induction o generalizing key with
  | new => rfl
  | collected ts => exact first?_ofList ts key
  | inserted o t ih => rw [set, first?_insert, ih, offered, Token.first?_append]
  | extended o ts ih => rw [set, first?_extend, ih, offered, Token.first?_append]
  | removed o t ih =>
    rw [set, first?_erase, ih]
    exact (Token.first?_filter key (· != t.key) o.offered).symm
  | union o o' ih ih' => rw [set, first?_union, ih, ih', offered, Token.first?_append]
  | inter o o' ih ih' =>
    rw [set, first?_inter, ih, hasKey_eq ih']
    exact (Token.first?_filter key (fun k => o'.offered.any fun t => t.key == k) o.offered).symm
  | diff o o' ih ih' =>
    rw [set, first?_diff, ih, hasKey_eq ih']
    exact (Token.first?_filter key (fun k => !o'.offered.any fun t => t.key == k) o.offered).symm

/-- The set is a map from keys that has the first token that was offered of each. -/
structure KeepsFirst (o : Origin) : Prop where
  /-- Each token is filed under its own key, the name in upper case. -/
  filed : o.table.items.toList = o.set.tokens.map fun t => (Text.upper t.name, t)
  /-- No two tokens have one key, and the keys are in the order of their bytes. -/
  ordered : (o.set.tokens.map fun t => Utf8.encode (Text.upper t.name)).Pairwise (· < ·)
  firsts : o.set.tokens.Perm (Token.firsts o.offered)
  /-- By key the same is contained and found as by a scan. -/
  contains : ∀ t, o.set.contains t = Token.contained o.set.tokens t
  find : ∀ name, o.set.find? name = Token.find? o.set.tokens name
  /-- A scan compares names byte by byte, without regard to case. -/
  contains_bytes : ∀ t, o.set.contains t
    = o.set.tokens.any fun u => Bytes.eqIgnoreCase (Utf8.encode u.name) (Utf8.encode t.name)
  find_bytes : ∀ name, o.set.find? name
    = o.set.tokens.find? fun u => Bytes.eqIgnoreCase (Utf8.encode u.name) (Utf8.encode name)

theorem perm_firsts (o : Origin) : o.set.tokens.Perm (Token.firsts o.offered) := by
  have hnodup : (Token.firsts o.offered).Nodup :=
    (Token.pairwise_firsts o.offered).imp fun hne heq => hne (congrArg Token.key heq)
  refine (List.perm_ext_iff_of_nodup o.set.nodup_tokens hnodup).2 fun t => ?_
  rw [mem_tokens_iff, Token.mem_iff_first? (Token.pairwise_firsts _), Token.first?_firsts,
    first?_set]

theorem keepsFirst (o : Origin) : o.KeepsFirst where
  filed := o.files.toList_items
  ordered := List.pairwise_map.2 (o.set.ordered.imp Utf8.encode_lt_encode)
  firsts := o.perm_firsts
  contains := o.set.contains_eq
  find := o.set.find?_eq
  contains_bytes t := by
    simp only [← Token.same_eq]
    exact o.set.contains_eq t
  find_bytes name := by
    simp only [← Token.is_eq]
    exact o.set.find?_eq name

end Origin

/-- However two sets have come about, each is a map without regard to case that keeps the first
token of each name, tables that have come about in the same ways answer every question as the sets
do, and the laws of set algebra hold, with the tokens of the left set. -/
theorem keepsFirst_origins (o o' : Origin) :
    o.KeepsFirst ∧ o.table.Tells o'.table o.set o'.set ∧ o.set.Algebra o'.set :=
  ⟨o.keepsFirst, o.files.tells o'.files, algebra o.set o'.set⟩

end TokenSet

end MailProtocol
