import MailProtocol.Proofs.Text.Case
import MailProtocol.Proofs.Token.Sets
import Mathlib.Data.List.Dedup
import Mathlib.Data.List.Perm.Basic
import Mathlib.Data.List.TakeWhile

/-!
# Negotiating with a list or with its set

A peer's tokens are asked in wire order, with all duplicates, or as a set. Questions about names
and tags see of a token no more than its key (`Token.ByKey`), for folding the case of a name neither
makes nor hides a separator, so that the key tells the tag (`Token.upper_tag`). The set of a list
has the keys of the list (`TokenSet.mem_keys_ofList`), so the answers are the same; and where a
token is handed out, the set has kept the first one.
-/

namespace MailProtocol

variable {t u : Token} {ts us : List Token} {name : String}

namespace Token

/-! ## Names in two parts -/

/-- The name has a separator, and `front` is what comes before the first one. -/
def HasFront (t : Token) (front : String) : Prop :=
  ∃ separator rest, t.name.toList = front.toList ++ separator :: rest
    ∧ (separator = '/' ∨ separator = '=') ∧ ∀ c ∈ front.toList, c ≠ '/' ∧ c ≠ '='

theorem isSeparator_iff {c : Char} : isSeparator c = true ↔ c = '/' ∨ c = '=' := by
  simp [isSeparator]

theorem toList_tag (t : Token) : t.tag.toList = t.name.toList.takeWhile (!isSeparator ·) :=
  String.toList_ofList

/-- The tag is what comes before the first separator, or the whole name if there is none. -/
theorem tag_cases (t : Token) : t.HasFront t.tag ∨ t.tag = t.name := by
  have hwhole := List.takeWhile_append_dropWhile (p := (!isSeparator ·)) (l := t.name.toList)
  cases hdrop : t.name.toList.dropWhile (!isSeparator ·) with
  | nil =>
    right
    rw [← String.toList_inj, toList_tag]
    rwa [hdrop, List.append_nil] at hwhole
  | cons c rest =>
    left
    refine ⟨c, rest, ?_, ?_, fun x hx => ?_⟩
    · rw [toList_tag, ← hdrop, hwhole]
    · have hhead := List.head?_dropWhile_not (p := (!isSeparator ·)) (l := t.name.toList)
      rw [hdrop] at hhead
      exact isSeparator_iff.1 (by simpa using hhead)
    · rw [toList_tag] at hx
      have hkept := List.mem_takeWhile_imp hx
      simpa [isSeparator] using hkept

theorem HasFront.eq_tag {front : String} (h : t.HasFront front) : front = t.tag := by
  obtain ⟨separator, rest, hname, hseparator, hfront⟩ := h
  have hkeep : ∀ c ∈ front.toList, (!isSeparator c) = true := fun c hc => by
    simpa [isSeparator] using hfront c hc
  have hstop : (separator :: rest).takeWhile (!isSeparator ·) = [] :=
    List.takeWhile_cons_of_neg (by rw [isSeparator_iff.2 hseparator]; exact Bool.false_ne_true)
  rw [← String.toList_inj, toList_tag, hname, List.takeWhile_append_of_pos hkeep, hstop,
    List.append_nil]

/-- A token answers for its name, and for what comes before the first separator. -/
theorem answers_iff : t.answers name = true
    ↔ Text.Alike t.name name ∨ ∃ front, t.HasFront front ∧ Text.Alike front name := by
  rw [answers, Bool.or_eq_true, is, hasTag, Text.eqIgnoreCase_iff_alike,
    Text.eqIgnoreCase_iff_alike]
  constructor
  · rintro (hname | htag)
    · exact .inl hname
    · rcases t.tag_cases with hfront | heq
      · exact .inr ⟨t.tag, hfront, htag⟩
      · exact .inl (heq ▸ htag)
  · rintro (hname | ⟨front, hfront, halike⟩)
    · exact .inl hname
    · exact .inr (hfront.eq_tag ▸ halike)

/-- No separator is a letter, so a name that is alike to one with a separator has it, too. -/
theorem mem_of_alike {s : String} {c : Char} (h : Text.Alike s name) (hc : isSeparator c = true)
    (hmem : c ∈ name.toList) : c ∈ s.toList := by
  refine h.mem (fun d hd => ?_) hmem
  have hnat : c.toNat = 47 ∨ c.toNat = 61 :=
    (isSeparator_iff.1 hc).imp (congrArg Char.toNat) (congrArg Char.toNat)
  rcases hd with heq | hupper | hlower
  · exact heq
  · omega
  · omega

/-- A name with a separator is asked for as a whole. -/
theorem answers_iff_of_separator {c : Char} (hc : isSeparator c = true) (hmem : c ∈ name.toList) :
    t.answers name = true ↔ Text.Alike t.name name := by
  rw [answers_iff]
  refine or_iff_left ?_
  rintro ⟨front, ⟨separator, rest, -, -, hfront⟩, halike⟩
  have hnone := hfront c (mem_of_alike halike hc hmem)
  exact (isSeparator_iff.1 hc).elim hnone.1 hnone.2

/-- The token that is found is the first of the name. -/
theorem find?_eq_some_iff : find? ts name = some t ↔ ∃ front rest, ts = front ++ t :: rest
    ∧ Text.Alike t.name name ∧ ∀ u ∈ front, ¬Text.Alike u.name name := by
  simp only [find?, List.find?_eq_some_iff_append, Bool.not_eq_true', ← Bool.not_eq_true, is,
    Text.eqIgnoreCase_iff_alike]
  constructor
  · rintro ⟨hname, front, rest, hts, hfront⟩
    exact ⟨front, rest, hts, hname, hfront⟩
  · rintro ⟨front, rest, hts, hname, hfront⟩
    exact ⟨hname, front, rest, hts, hfront⟩

/-! ## Questions see the key only -/

theorem isSeparator_toUpper (c : Char) : isSeparator c.toUpper = isSeparator c := by
  by_cases hletter : 97 ≤ c.toNat ∧ c.toNat ≤ 122
  · have hfalse {d : Char} (hd : 65 ≤ d.toNat) : isSeparator d = false := by
      rw [← Bool.not_eq_true, isSeparator_iff]
      rintro (rfl | rfl) <;> exact absurd hd (by decide)
    have hupper := Text.toNat_toUpper c
    rw [if_pos hletter] at hupper
    rw [hfalse (by omega), hfalse (by omega)]
  · rw [Text.toUpper_of_not hletter]

/-- The key tells the tag, up to case. -/
theorem upper_tag (t : Token) :
    Text.upper t.tag = String.ofList (t.key.toList.takeWhile (!isSeparator ·)) := by
  have hkept : ((!isSeparator ·) ∘ Char.toUpper) = (!isSeparator ·) :=
    funext fun c => congrArg (!·) (isSeparator_toUpper c)
  rw [← String.toList_inj, Text.toList_upper, toList_tag, String.toList_ofList, key,
    Text.toList_upper, List.takeWhile_map, hkept]

/-- A question that tokens of one key answer alike. -/
def ByKey (p : Token → Bool) : Prop := ∀ t u : Token, t.key = u.key → p t = p u

theorem byKey_hasTag (tag : String) : ByKey (·.hasTag tag) := fun t u h => by
  show (Text.upper t.tag == Text.upper tag) = (Text.upper u.tag == Text.upper tag)
  rw [upper_tag, upper_tag, h]

theorem byKey_answers (name : String) : ByKey (·.answers name) := fun t u h => by
  have hname : t.is name = u.is name := congrArg (· == Text.upper name) h
  have htag : t.hasTag name = u.hasTag name := byKey_hasTag name t u h
  show (t.is name || t.hasTag name) = (u.is name || u.hasTag name)
  rw [hname, htag]

theorem mem_map_key_iff {key : String} : key ∈ ts.map Token.key ↔ first? key ts ≠ none := by
  rw [ne_eq, first?_eq_none_iff, List.mem_map]
  push Not
  rfl

/-- Of two lists with the same keys the same keys are selected. -/
theorem ByKey.mem_map_filter {p : Token → Bool} (hp : ByKey p)
    (h : ∀ key, key ∈ ts.map Token.key ↔ key ∈ us.map Token.key) {key : String}
    (hmem : key ∈ (ts.filter p).map Token.key) : key ∈ (us.filter p).map Token.key := by
  obtain ⟨t, ht, rfl⟩ := List.mem_map.1 hmem
  obtain ⟨hin, hpt⟩ := List.mem_filter.1 ht
  obtain ⟨u, hu, heq⟩ := List.mem_map.1 ((h t.key).1 (List.mem_map_of_mem hin))
  refine List.mem_map.2 ⟨u, List.mem_filter.2 ⟨hu, ?_⟩, heq⟩
  rwa [hp u t heq]

theorem ByKey.any_eq {p : Token → Bool} (hp : ByKey p)
    (h : ∀ key, key ∈ ts.map Token.key ↔ key ∈ us.map Token.key) : ts.any p = us.any p := by
  have hany {ts us : List Token} (h : ∀ key, key ∈ ts.map Token.key ↔ key ∈ us.map Token.key)
      (hts : ts.any p = true) : us.any p = true := by
    obtain ⟨t, ht, hpt⟩ := List.any_eq_true.1 hts
    obtain ⟨u, hu, heq⟩ := List.mem_map.1 ((h t.key).1 (List.mem_map_of_mem ht))
    exact List.any_eq_true.2 ⟨u, hu, (hp u t heq).trans hpt⟩
  exact Bool.eq_iff_iff.2 ⟨hany h, hany fun key => (h key).symm⟩

end Token

namespace TokenSet

/-! ## A list and its set -/

theorem mem_keys_ofList (ts : List Token) (key : String) :
    key ∈ (ofList ts).tokens.map Token.key ↔ key ∈ ts.map Token.key := by
  rw [Token.mem_map_key_iff, Token.mem_map_key_iff, first?_ofList]

/-- The set has one token for each key of the list. -/
theorem length_ofList (ts : List Token) :
    (ofList ts).tokens.length = (ts.map Token.key).dedup.length := by
  have hnodup : ((ofList ts).tokens.map Token.key).Nodup :=
    List.pairwise_map.2 (ofList ts).pairwise_ne
  have hperm : ((ofList ts).tokens.map Token.key).Perm (ts.map Token.key).dedup :=
    (List.perm_ext_iff_of_nodup hnodup (List.nodup_dedup _)).2 fun key => by
      rw [mem_keys_ofList, List.mem_dedup]
  rw [← hperm.length_eq, List.length_map]

/-- The set gives every answer about `name` that the list gives, and what these answers are: the
token found is the first of the name in the list, and a capability is a name or what comes before
the first separator of one. -/
structure Negotiates (s : TokenSet) (ts : List Token) (name : String) : Prop where
  contains : ∀ t, s.contains t = Token.contained ts t
  isCapable : Token.isCapable s.tokens name = Token.isCapable ts name
  findByTag : (Token.findByTag? s.tokens name).isSome = (Token.findByTag? ts name).isSome
  findAllByTag : ∀ key, key ∈ (Token.findAllByTag s.tokens name).map (Text.upper ·.name)
    ↔ key ∈ (Token.findAllByTag ts name).map (Text.upper ·.name)
  find : s.find? name = Token.find? ts name
  find_iff : ∀ t, Token.find? ts name = some t ↔ ∃ front rest, ts = front ++ t :: rest
    ∧ Text.Alike t.name name ∧ ∀ u ∈ front, ¬Text.Alike u.name name
  length : s.tokens.length = (ts.map (Text.upper ·.name)).dedup.length
  isCapable_iff : Token.isCapable ts name = true ↔ (∃ t ∈ ts, Text.Alike t.name name)
    ∨ ∃ t ∈ ts, ∃ front, t.HasFront front ∧ Text.Alike front name

/-- A list and its set give the same answers. -/
theorem negotiates_ofList (ts : List Token) (name : String) : (ofList ts).Negotiates ts name where
  contains t := by
    rw [contains, hasKey_eq, first?_ofList, Token.isSome_first?]
    rfl
  isCapable := (Token.byKey_answers name).any_eq (mem_keys_ofList ts)
  findByTag := by
    rw [Token.findByTag?, Token.findByTag?, List.isSome_find?, List.isSome_find?]
    exact (Token.byKey_hasTag name).any_eq (mem_keys_ofList ts)
  findAllByTag key :=
    ⟨(Token.byKey_hasTag name).mem_map_filter (mem_keys_ofList ts),
      (Token.byKey_hasTag name).mem_map_filter fun key => (mem_keys_ofList ts key).symm⟩
  find := by
    rw [find?_eq]
    exact first?_ofList ts (Text.upper name)
  find_iff t := Token.find?_eq_some_iff
  length := length_ofList ts
  isCapable_iff := by
    rw [Token.isCapable, List.any_eq_true]
    simp only [Token.answers_iff]
    constructor
    · rintro ⟨t, ht, hname | hfront⟩
      · exact .inl ⟨t, ht, hname⟩
      · exact .inr ⟨t, ht, hfront⟩
    · rintro (⟨t, ht, hname⟩ | ⟨t, ht, hfront⟩)
      · exact ⟨t, ht, .inl hname⟩
      · exact ⟨t, ht, .inr hfront⟩

end TokenSet

end MailProtocol
