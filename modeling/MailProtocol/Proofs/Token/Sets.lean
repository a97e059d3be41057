import MailProtocol.Proofs.Text.Case
import MailProtocol.Token.Lookup
import MailProtocol.Token.TokenSet
import Mathlib.Data.List.Nodup
import Mathlib.Data.List.Pairwise

/-!
# Sets as maps from keys

Looking a key up in a set comes to scanning its tokens for the first one of the key
(`seek_eq_first?`), as it is done in a list, and a set is no more than what is found in it under
each key (`eq_of_first?`). So for each operation it is said what is found in its result: after
adding tokens the old ones, and the first new one where there was none (`first?_extend`); after
selecting by the key the old ones of the selected keys (`Token.first?_filter`).

The laws of set algebra (`TokenSet.Algebra`) follow key by key.
-/

namespace MailProtocol

variable {key : String} {t u : Token} {ts us : List Token}

namespace Token

/-! ## Identity -/

/-- Tokens of one identity are those whose names are equal up to case, byte by byte. -/
theorem same_eq (t u : Token) :
    t.same u = Bytes.eqIgnoreCase (Utf8.encode t.name) (Utf8.encode u.name) :=
  (Utf8.eqIgnoreCase_encode t.name u.name).symm

/-- A token has a name if its own is equal to it up to case, byte by byte. -/
theorem is_eq (t : Token) (name : String) :
    t.is name = Bytes.eqIgnoreCase (Utf8.encode t.name) (Utf8.encode name) :=
  (Utf8.eqIgnoreCase_encode t.name name).symm

/-- A hash tells tokens apart just as their identity does. -/
theorem hashKey_eq_iff : t.hashKey = u.hashKey ↔ t.same u = true := by
  rw [hashKey, hashKey, Bytes.foldedKey, Bytes.foldedKey, List.append_left_inj, same_eq,
    Bytes.eqIgnoreCase, beq_iff_eq]

theorem same_iff_key_eq : t.same u = true ↔ t.key = u.key := beq_iff_eq

/-! ## The first token of a key -/

/-- The first token of this key. -/
def first? (key : String) (ts : List Token) : Option Token := ts.find? fun t => t.key == key

theorem first?_cons (key : String) (t : Token) (ts : List Token) :
    first? key (t :: ts) = if t.key = key then some t else first? key ts := by
  rw [first?, List.find?_cons]
  split
  · next h => rw [if_pos (beq_iff_eq.1 h)]
  · next h => rw [if_neg (by simpa using h), first?]

theorem first?_append (key : String) (ts us : List Token) :
    first? key (ts ++ us) = (first? key ts).or (first? key us) :=
  List.find?_append

theorem key_of_first? (h : first? key ts = some t) : t.key = key := by
  have hkey := List.find?_some h
  exact beq_iff_eq.1 hkey

theorem first?_eq_none_iff : first? key ts = none ↔ ∀ t ∈ ts, t.key ≠ key := by
  simp only [first?, List.find?_eq_none, beq_iff_eq, ne_eq]

theorem isSome_first? (key : String) (ts : List Token) :
    (first? key ts).isSome = ts.any fun t => t.key == key :=
  List.isSome_find?

/-- Of a selection by key all of a key is left, or nothing. -/
theorem first?_filter (key : String) (p : String → Bool) (ts : List Token) :
    first? key (ts.filter fun t => p t.key) = if p key then first? key ts else none := by
  rw [first?, List.find?_filter]
  have hboth (t : Token) :
      decide (p t.key = true ∧ (t.key == key) = true) = (p key && t.key == key) := by
    by_cases h : t.key = key <;> simp [h]
  simp only [hboth]
  cases p key with
  | true => rfl
  | false => exact List.find?_eq_none.2 fun t _ => Bool.false_ne_true

/-- Where no two tokens have one key, each is the first of its key. -/
theorem mem_iff_first? (h : ts.Pairwise fun t u => t.key ≠ u.key) :
    t ∈ ts ↔ first? t.key ts = some t := by
  refine ⟨fun hmem => ?_, List.mem_of_find?_eq_some⟩
  induction ts with
  | nil => cases hmem
  | cons u ts ih =>
    obtain ⟨hu, hts⟩ := List.pairwise_cons.1 h
    rw [first?_cons]
    rcases List.mem_cons.1 hmem with rfl | hmem
    · rw [if_pos rfl]
    · rw [if_neg (hu t hmem), ih hts hmem]

/-- The first token of each identity, in order. -/
def firsts (ts : List Token) : List Token := ts.eraseDupsBy same

theorem firsts_cons (t : Token) (ts : List Token) :
    firsts (t :: ts) = t :: firsts (ts.filter fun u => u.key != t.key) := by
  have hothers : (ts.filter fun u => u.same t = false) = ts.filter fun u => u.key != t.key := by
    refine List.filter_congr fun u _ => ?_
    rw [same, bne]
    cases u.key == t.key <;> rfl
  rw [firsts, List.eraseDupsBy_cons, hothers, firsts]

/-- Induction over the first tokens of a list: what is left after one has no other of its key. -/
theorem firstsInduction {P : List Token → Prop} (nil : P [])
    (cons : ∀ t ts, P (ts.filter fun u => u.key != t.key) → P (t :: ts)) (ts : List Token) :
    P ts := by
  induction hn : ts.length using Nat.strongRecOn generalizing ts with
  | _ n ih =>
  cases ts with
  | nil => exact nil
  | cons t ts =>
    refine cons t ts (ih _ ?_ _ rfl)
    have hle := List.length_filter_le (fun u : Token => u.key != t.key) ts
    rw [List.length_cons] at hn
    omega

/-- The first tokens are those of the list. -/
theorem first?_firsts (key : String) (ts : List Token) :
    first? key (firsts ts) = first? key ts := by
  induction ts using firstsInduction with
  | nil => rfl
  | cons t ts ih =>
    rw [firsts_cons, first?_cons, first?_cons, ih, first?_filter key (fun k => k != t.key)]
    split
    · rfl
    · next h => rw [if_pos (by simpa using Ne.symm h)]

theorem pairwise_firsts (ts : List Token) : (firsts ts).Pairwise fun t u => t.key ≠ u.key := by
  induction ts using firstsInduction with
  | nil => exact .nil
  | cons t ts ih =>
    rw [firsts_cons]
    refine List.pairwise_cons.2 ⟨fun u hu heq => ?_, ih⟩
    have hsome := (mem_iff_first? ih).1 hu
    rw [first?_firsts, first?_filter _ (fun k => k != t.key), if_neg (by simp [heq])] at hsome
    cases hsome

end Token

namespace TokenSet

/-! ## Looking a key up -/

theorem pairwise_ne (s : TokenSet) : s.tokens.Pairwise fun t u => t.key ≠ u.key := by
  refine s.ordered.imp ?_
  intro t u hlt heq
  rw [heq] at hlt
  exact String.lt_irrefl u.key hlt

/-- The order of the keys lets the look-up stop early, and it finds what a scan finds. -/
theorem seek_eq_first? (h : ts.Pairwise fun t u => t.key < u.key) (key : String) :
    seek key ts = Token.first? key ts := by
  induction ts with
  | nil => rfl
  | cons t ts ih =>
    obtain ⟨ht, hts⟩ := List.pairwise_cons.1 h
    rw [seek, Token.first?_cons]
    split
    · next hlt =>
      have hnone : Token.first? key ts = none :=
        Token.first?_eq_none_iff.2 fun u hu heq =>
          String.lt_irrefl _ (String.lt_trans hlt (heq ▸ ht u hu))
      rw [if_neg (fun heq => String.lt_irrefl _ (heq ▸ hlt)), hnone]
    · split
      · next heq => rw [if_pos heq.symm]
      · next hne => rw [if_neg (Ne.symm hne), ih hts]

theorem hasKey_eq (s : TokenSet) (key : String) :
    s.hasKey key = (Token.first? key s.tokens).isSome := by
  rw [hasKey, seek_eq_first? s.ordered]

/-- By key the same is found as by a scan for the name. -/
theorem find?_eq (s : TokenSet) (name : String) : s.find? name = Token.find? s.tokens name :=
  seek_eq_first? s.ordered (Text.upper name)

/-- By key the same is contained as by a scan for the token. -/
theorem contains_eq (s : TokenSet) (t : Token) : s.contains t = Token.contained s.tokens t := by
  rw [contains, hasKey_eq, Token.isSome_first?, Token.contained]
  rfl

theorem mem_tokens_iff {s : TokenSet} : t ∈ s.tokens ↔ Token.first? t.key s.tokens = some t :=
  Token.mem_iff_first? s.pairwise_ne

theorem nodup_tokens (s : TokenSet) : s.tokens.Nodup :=
  s.pairwise_ne.imp fun hne heq => hne (congrArg Token.key heq)

theorem ext_tokens {s u : TokenSet} (h : s.tokens = u.tokens) : s = u := by
  cases s
  cases u
  cases h
  rfl

/-- Two sets in which the same is found are the same. -/
theorem eq_of_first? {s u : TokenSet}
    (h : ∀ key, Token.first? key s.tokens = Token.first? key u.tokens) : s = u := by
  have hperm : s.tokens.Perm u.tokens :=
    (List.perm_ext_iff_of_nodup s.nodup_tokens u.nodup_tokens).2 fun t => by
      rw [mem_tokens_iff, mem_tokens_iff, h]
  exact ext_tokens (hperm.eq_of_pairwise
    (fun _ _ _ _ hlt hgt => absurd hlt (String.lt_asymm hgt)) s.ordered u.ordered)

/-! ## What is found after an operation -/

theorem first?_place (h : ts.Pairwise fun t u => t.key < u.key) (t : Token) (key : String) :
    Token.first? key (place t ts) = (Token.first? key ts).or (Token.first? key [t]) := by
  induction ts with
  | nil => rfl
  | cons u us ih =>
    obtain ⟨hu, hus⟩ := List.pairwise_cons.1 h
    rw [place]
    split
    · next hlt =>
      -- behind the new token its key does not come again
      have hnone : t.key = key → Token.first? key (u :: us) = none := by
        rintro rfl
        refine Token.first?_eq_none_iff.2 (List.forall_mem_cons.2 ⟨?_, fun v hv => ?_⟩)
        · exact fun heq => String.lt_irrefl _ (heq ▸ hlt)
        · exact fun heq => String.lt_irrefl _ (heq ▸ String.lt_trans hlt (hu v hv))
      rw [Token.first?_cons, Token.first?_cons key t []]
      split
      · next ht => rw [hnone ht, Option.none_or]
      · exact (Option.or_none).symm
    · split
      · next heq =>
        rw [Token.first?_cons key u, Token.first?_cons key t [], heq]
        split
        · rfl
        · exact (Option.or_none).symm
      · rw [Token.first?_cons, Token.first?_cons key u us, ih hus]
        split
        · rfl
        · rfl

theorem first?_insert (s : TokenSet) (t : Token) (key : String) :
    Token.first? key (s.insert t).tokens
      = (Token.first? key s.tokens).or (Token.first? key [t]) :=
  first?_place s.ordered t key

/-- What a set has stays as it is, and of what is new the first token of a key counts. -/
theorem first?_extend (s : TokenSet) (ts : List Token) (key : String) :
    Token.first? key (s.extend ts).tokens
      = (Token.first? key s.tokens).or (Token.first? key ts) := by
  induction ts generalizing s with
  | nil => exact (Option.or_none).symm
  | cons t ts ih =>
    rw [extend, List.foldl_cons, ← extend, ih, first?_insert, Option.or_assoc,
      ← Token.first?_append, List.singleton_append]

theorem first?_ofList (ts : List Token) (key : String) :
    Token.first? key (ofList ts).tokens = Token.first? key ts := by
  rw [ofList, first?_extend]
  rfl

theorem first?_erase (s : TokenSet) (t : Token) (key : String) :
    Token.first? key (s.erase t).tokens
      = if key != t.key then Token.first? key s.tokens else none :=
  Token.first?_filter key (· != t.key) s.tokens

theorem first?_union (s u : TokenSet) (key : String) :
    Token.first? key (s.union u).tokens
      = (Token.first? key s.tokens).or (Token.first? key u.tokens) :=
  first?_extend s u.tokens key

theorem first?_inter (s u : TokenSet) (key : String) :
    Token.first? key (s.inter u).tokens
      = if u.hasKey key then Token.first? key s.tokens else none :=
  Token.first?_filter key u.hasKey s.tokens

theorem first?_diff (s u : TokenSet) (key : String) :
    Token.first? key (s.diff u).tokens
      = if !u.hasKey key then Token.first? key s.tokens else none :=
  Token.first?_filter key (!u.hasKey ·) s.tokens

/-! ## Set algebra -/

/-- The laws of two sets: what is contained in their union, intersection and difference, which token
is found there, and how the questions about them are answered. -/
structure Algebra (s u : TokenSet) : Prop where
  contains_union : ∀ t, (s.union u).contains t = (s.contains t || u.contains t)
  contains_inter : ∀ t, (s.inter u).contains t = (s.contains t && u.contains t)
  contains_diff : ∀ t, (s.diff u).contains t = (s.contains t && !u.contains t)
  /-- Where the left set has the name, its token is found, as it is. -/
  find_union : ∀ name, (s.union u).find? name = (s.find? name).or (u.find? name)
  find_inter : ∀ name, (s.inter u).find? name = if (u.find? name).isSome then s.find? name else none
  find_diff : ∀ name, (s.diff u).find? name = if (u.find? name).isSome then none else s.find? name
  /-- What the sets share and what only the left one has are the left one again. -/
  union_inter_diff : (s.inter u).union (s.diff u) = s
  isSubset_iff : s.isSubset u = true ↔ (s.diff u).tokens = []
  isSuperset_iff : s.isSuperset u = true ↔ (u.diff s).tokens = []
  isDisjoint_iff : s.isDisjoint u = true ↔ (s.inter u).tokens = []

theorem isSubset_iff (s u : TokenSet) : s.isSubset u = true ↔ (s.diff u).tokens = [] := by
  rw [isSubset, List.all_eq_true, diff, filter, List.filter_eq_nil_iff]
  simp

theorem isDisjoint_iff (s u : TokenSet) : s.isDisjoint u = true ↔ (s.inter u).tokens = [] := by
  rw [isDisjoint, inter, filter, List.filter_eq_nil_iff]
  simp

/-- What the sets share and what only the left one has are the left one again. -/
theorem union_inter_diff (s u : TokenSet) : (s.inter u).union (s.diff u) = s := by
  refine eq_of_first? fun key => ?_
  rw [first?_union, first?_inter, first?_diff]
  cases u.hasKey key with
  | true => exact Option.or_none
  | false => rfl

theorem algebra (s u : TokenSet) : Algebra s u where
  contains_union t := by
    simp only [contains, hasKey_eq, first?_union, Option.isSome_or]
  contains_inter t := by
    simp only [contains, hasKey_eq s, hasKey_eq (s.inter u), first?_inter]
    cases u.hasKey t.key <;> simp
  contains_diff t := by
    simp only [contains, hasKey_eq s, hasKey_eq (s.diff u), first?_diff]
    cases u.hasKey t.key <;> simp
  find_union name := by
    simp only [find?, seek_eq_first?, ordered, first?_union]
  find_inter name := by
    simp only [find?, seek_eq_first?, ordered, first?_inter, hasKey_eq]
  find_diff name := by
    simp only [find?, seek_eq_first?, ordered, first?_diff, hasKey_eq]
    cases Token.first? (Text.upper name) u.tokens <;> rfl
  union_inter_diff := union_inter_diff s u
  isSubset_iff := isSubset_iff s u
  isSuperset_iff := isSubset_iff u s
  isDisjoint_iff := isDisjoint_iff s u

end TokenSet

end MailProtocol
