import MailProtocol.Bytes.Search
import MailProtocol.Grammar
import MailProtocol.Proofs.Bytes.Words

/-!
# Reading by places

The grammars read a string from its front and go on with what is left of it. It can also be read by
places: the string stays whole, an index moves on in it, bytes are looked up, parts are cut out
between two places, and places are counted off one another. Then every access can miss the string,
every difference can fall below zero, and every sum can be too large (`Trap`).

`At s ix t` ties the two together: at the place `ix` of `s` its end `t` begins. `Comes` says that a
reading by places comes to a result, without a trap.
-/

namespace MailProtocol

variable {α β : Type}

/-- What stops a reading by places. -/
inductive Trap where
  /-- A place or a part that the string does not have. -/
  | outOfRange
  /-- A difference below zero. -/
  | underflow
  /-- A sum that takes more than 64 bits. -/
  | overflow
  /-- A loop that does not get on. -/
  | stuck
deriving DecidableEq, Repr

namespace Trap

/-- What is left of `m` without `n`. -/
def sub (m n : Nat) : Except Trap Nat := if n ≤ m then .ok (m - n) else .error underflow

/-- The sum, if it takes no more than 64 bits. -/
def add (m n : Nat) : Except Trap Nat :=
  if m + n < UInt64.size then .ok (m + n) else .error overflow

theorem sub_eq_ok {m n : Nat} (h : n ≤ m) : sub m n = .ok (m - n) := if_pos h

end Trap

namespace Bytes

/-- The byte at a place. -/
def byteAt (s : Bytes) (ix : Nat) : Except Trap UInt8 :=
  match s[ix]? with
  | some b => .ok b
  | none => .error .outOfRange

/-- The part from `start` up to `stop`. -/
def part (s : Bytes) (start stop : Nat) : Except Trap Bytes :=
  match s.slice? start stop with
  | some part => .ok part
  | none => .error .outOfRange

/-- The part from `start` to the end. -/
def partFrom (s : Bytes) (start : Nat) : Except Trap Bytes := s.part start s.length

/-- What is found lies behind the start. -/
theorem le_of_find? {s : Bytes} {p : UInt8 → Bool} {start place : Nat}
    (h : s.find? p start = some place) : start ≤ place := by
  obtain ⟨k, -, rfl⟩ := Option.map_eq_some_iff.1 h
  exact Nat.le_add_right start k

/-- A string is without `p`, or there is a first byte with it. -/
theorem exists_cut (p : UInt8 → Bool) (s : Bytes) :
    (∀ c ∈ s, p c = false) ∨ ∃ w b t, s = w ++ b :: t ∧ (∀ c ∈ w, p c = false) ∧ p b = true := by
  rcases hfind : List.find? p s with _ | b
  · left
    simpa using List.find?_eq_none.1 hfind
  · right
    obtain ⟨hb, w, t, rfl, hw⟩ := List.find?_eq_some_iff_append.1 hfind
    exact ⟨w, b, t, rfl, by simpa using hw, hb⟩

/-- What has been read of `s`, with the place where the rest begins. -/
def placed (s : Bytes) (r : α × Bytes) : α × Nat := (r.1, s.length - r.2.length)

end Bytes

/-- At the place `ix` of `s` its end `t` begins. -/
structure At (s : Bytes) (ix : Nat) (t : Bytes) : Prop where
  le : ix ≤ s.length
  drop : s.drop ix = t

namespace At

variable {s t w : Bytes} {ix : Nat} {b : UInt8}

theorem start (s : Bytes) : At s 0 s := ⟨Nat.zero_le _, rfl⟩

theorem length_eq (h : At s ix t) : ix + t.length = s.length := by
  have hlength := congrArg List.length h.drop
  rw [List.length_drop] at hlength
  have := h.le
  omega

/-- The place is known by what begins there. -/
theorem place_eq (h : At s ix t) : s.length - t.length = ix := by
  have := h.length_eq
  omega

theorem suffix (h : At s ix t) : t <:+ s := by
  rw [← h.drop]
  exact List.drop_suffix ix s

/-- An end of the string begins where as many bytes are left as it has. -/
theorem of_suffix (h : t <:+ s) : At s (s.length - t.length) t :=
  ⟨Nat.sub_le _ _, (List.suffix_iff_eq_drop.1 h).symm⟩

/-- What is the end of one end begins behind its place. -/
theorem of_suffix_at (h : At s ix t) (hw : w <:+ t) : At s (s.length - w.length) w :=
  of_suffix (hw.trans h.suffix)

theorem getElem? (h : At s ix t) (k : Nat) : s[ix + k]? = t[k]? := by
  rw [← h.drop, List.getElem?_drop]

theorem get (h : At s ix t) : s[ix]? = t.head? := by
  rw [List.head?_eq_getElem?]
  exact h.getElem? 0

theorem get_eq_some_iff (h : At s ix t) : s[ix]? = some b ↔ ∃ u, t = b :: u := by
  rw [h.get, List.head?_eq_some_iff]

theorem append (h : At s ix (w ++ t)) : At s (ix + w.length) t := by
  have hlength := h.length_eq
  rw [List.length_append] at hlength
  refine ⟨by omega, ?_⟩
  rw [← List.drop_drop, h.drop, List.drop_left]

theorem tail (h : At s ix (b :: t)) : At s (ix + 1) t := append (w := [b]) h

theorem of_append (w t : Bytes) : At (w ++ t) w.length t := by
  have h := (start (w ++ t)).append
  rwa [Nat.zero_add] at h

/-- An end of the string that is not empty begins inside of it. -/
theorem of_drop (h : s.drop ix = t) (hne : t ≠ []) : At s ix t :=
  ⟨Nat.le_of_not_le fun hle => hne (h ▸ List.drop_of_length_le hle), h⟩

/-- What is put behind the string comes behind what begins in it. -/
theorem append_right (h : At s ix t) (u : Bytes) : At (s ++ u) ix (t ++ u) := by
  refine ⟨?_, ?_⟩
  · rw [List.length_append]
    exact Nat.le_add_right_of_le h.le
  · rw [List.drop_append_of_le_length h.le, h.drop]

theorem byteAt_eq (h : At s ix (b :: t)) : s.byteAt ix = .ok b := by
  rw [Bytes.byteAt, h.get]
  rfl

/-- The next bytes, if there are as many. -/
theorem slice? (h : At s ix t) (n : Nat) :
    s.slice? ix (ix + n) = if n ≤ t.length then some (t.take n) else none := by
  have hlength := h.length_eq
  by_cases hn : n ≤ t.length
  · rw [Bytes.slice?, if_pos ⟨by omega, by omega⟩, if_pos hn, List.drop_take, h.drop,
      Nat.add_sub_cancel_left]
  · rw [Bytes.slice?, if_neg (by omega), if_neg hn]

/-- What stands between two places is cut out. -/
theorem part_eq (h : At s ix (w ++ t)) : s.part ix (ix + w.length) = .ok w := by
  have hlength : w.length ≤ (w ++ t).length := by simp
  rw [Bytes.part, h.slice?, if_pos hlength, List.take_left]

/-- The front of a string is cut off. -/
theorem part_append (w t : Bytes) : (w ++ t).part 0 w.length = .ok w := by
  have h := (start (w ++ t)).part_eq
  rwa [Nat.zero_add] at h

theorem partFrom_eq (h : At s ix t) : s.partFrom ix = .ok t := by
  have hall : At s ix (t ++ []) := by rwa [List.append_nil]
  rw [Bytes.partFrom, ← h.length_eq]
  exact hall.part_eq

/-- The first byte with `p` is found behind those without it. -/
theorem find?_eq_some {p : UInt8 → Bool} (h : At s ix (w ++ b :: t)) (hw : ∀ c ∈ w, p c = false)
    (hb : p b = true) : s.find? p ix = some (ix + w.length) := by
  rw [Bytes.find?, h.drop, List.findIdx?_append, List.findIdx?_eq_none_iff.2 hw,
    List.findIdx?_cons, hb]
  simp

theorem find?_eq_none {p : UInt8 → Bool} (h : At s ix t) (ht : ∀ c ∈ t, p c = false) :
    s.find? p ix = none := by
  rw [Bytes.find?, h.drop, List.findIdx?_eq_none_iff.2 ht]
  rfl

end At

/-! ## Parts and first places -/

namespace Bytes

/-- A part is cut out between two places exactly if it begins at the one and what follows it at the
other. -/
theorem slice?_eq_some_iff {s part : Bytes} {start stop : Nat} :
    s.slice? start stop = some part
      ↔ s.drop start = part ++ s.drop stop ∧ start + part.length = stop ∧ stop ≤ s.length := by
  constructor
  · intro h
    rw [Bytes.slice?] at h
    split at h
    · next hplaces =>
      obtain rfl := Option.some.inj h
      have htake : (s.take stop).length = stop := List.length_take_of_le hplaces.2
      refine ⟨?_, ?_, hplaces.2⟩
      · rw [← List.drop_append_of_le_length (by omega), List.take_append_drop]
      · rw [List.length_drop]
        omega
    · cases h
  · rintro ⟨hdrop, rfl, hstop⟩
    have hat : At s start (part ++ s.drop (start + part.length)) := ⟨by omega, hdrop⟩
    rw [hat.slice?, if_pos (by simp), List.take_left]

theorem indexOf?_append {b : UInt8} {w : Bytes} (h : b ∉ w) (t : Bytes) :
    (w ++ b :: t).indexOf? b = some w.length := by
  have hw : ∀ c ∈ w, (c == b) = false := by
    intro c hc
    simpa using fun he : c = b => h (he ▸ hc)
  have hfind := (At.start (w ++ b :: t)).find?_eq_some hw (beq_self_eq_true b)
  rwa [Nat.zero_add] at hfind

theorem indexOf?_eq_none {b : UInt8} {s : Bytes} (h : b ∉ s) : s.indexOf? b = none := by
  apply (At.start s).find?_eq_none
  intro c hc
  simpa using fun he : c = b => h (he ▸ hc)

/-- The opening bracket of a code is not taken for its closing one. -/
theorem closeBracket_notMem_cons {inner : Bytes} (h : Byte.closeBracket ∉ inner) :
    Byte.closeBracket ∉ Byte.openBracket :: inner := by
  rw [List.mem_cons, not_or]
  exact ⟨by decide, h⟩

/-- How a string is cut at the first place of a byte: what stands before it, what begins there, and
the place. -/
inductive Cut (b : UInt8) : Bytes → Bytes → Bytes → Option Nat → Prop
  | whole {s : Bytes} (h : b ∉ s) : Cut b s s [] none
  | first {w : Bytes} (h : b ∉ w) (t : Bytes) : Cut b (w ++ b :: t) w (b :: t) (some w.length)

theorem cut (b : UInt8) (s : Bytes) :
    Cut b s (s.takeWhile (· != b)) (s.dropWhile (· != b)) (s.indexOf? b) := by
  rcases exists_cut (· == b) s with hs | ⟨w, c, t, rfl, hw, hc⟩
  · have h : b ∉ s := fun hmem => by simpa using hs b hmem
    have hcut := takeWhile_ne_append h (t := []) (.inl rfl)
    rw [List.append_nil] at hcut
    rw [hcut.1, hcut.2, indexOf?_eq_none h]
    exact .whole h
  · have h : b ∉ w := fun hmem => by simpa using hw b hmem
    obtain rfl : c = b := by simpa using hc
    have hcut := takeWhile_ne_append h (t := c :: t) (.inr rfl)
    rw [hcut.1, hcut.2, indexOf?_append h]
    exact .first h t

end Bytes

/-! ## Coming to a result -/

/-- The reading by places `x` comes to `y`. Nothing but a sum can stop it, and only if `fits` does
not hold. -/
def Comes (fits : Prop) (x : Except Trap α) (y : α) : Prop :=
  x = .ok y ∨ x = .error .overflow ∧ ¬fits

namespace Comes

variable {fits fits' : Prop} {x : Except Trap α} {y : α}

theorem of_eq (h : x = .ok y) : Comes fits x y := .inl h

theorem pure (y : α) : Comes fits (.ok y) y := .inl rfl

theorem eq (h : Comes fits x y) (hfits : fits) : x = .ok y :=
  h.resolve_right fun h' => h'.2 hfits

theorem mono (h : Comes fits x y) (himp : fits' → fits) : Comes fits' x y :=
  h.imp_right fun h' => ⟨h'.1, fun hfits => h'.2 (himp hfits)⟩

/-- One reading after another. -/
theorem bind {f : α → Except Trap β} {z : β} (h : Comes fits x y) (h' : Comes fits (f y) z) :
    Comes fits (x >>= f) z := by
  rcases h with rfl | ⟨rfl, hfits⟩
  · exact h'
  · exact .inr ⟨rfl, hfits⟩

end Comes

/-! ## What a grammar finds, by places -/

/-- What must follow a fragment, with the length that the fragment must get. -/
inductive PlacedNeeds where
  | line
  | literal (requiredAtLeast : Nat) (synchronising : Bool)
deriving DecidableEq, Repr

/-- What a grammar makes of a fragment, with the place where the unit ends. -/
inductive Placed (υ : Type) where
  | complete (unit : υ) (consumed : Nat)
  | incomplete (needs : PlacedNeeds)
deriving DecidableEq, Repr

/-- What the fragment `s` needs, told by its length. -/
def Needs.placed (s : Bytes) : Needs → PlacedNeeds
  | line => .line
  | literal missing synchronising => .literal (s.length + missing) synchronising

/-- What has been made of the fragment `s`, told by places. -/
def Parsed.placed {υ : Type} (s : Bytes) : Parsed υ → Placed υ
  | complete unit rest => .complete unit (s.length - rest.length)
  | incomplete needs => .incomplete (needs.placed s)

namespace Grammar

variable {γ υ : Type}

/-- What a grammar answers about the fragment `s`, told by places. -/
def placed (s : Bytes) (answer : γ × Except Malformed (Parsed υ)) :
    γ × Except Malformed (Placed υ) := (answer.1, answer.2.map (Parsed.placed s))

/-- A reading by places for a grammar. -/
structure Places (G : Grammar γ υ) where
  parseAt : γ → Bytes → Except Trap (γ × Except Malformed (Placed υ))
  /-- The longest literal, if the grammar knows literals. -/
  maxLiteral : Option Nat

namespace Places

variable {G : Grammar γ υ} (P : G.Places)

/-- With the longest literal behind it, the fragment still has a length of 64 bits. -/
def Fits (fragment : Bytes) : Prop := ∀ m ∈ P.maxLiteral, fragment.length + m < UInt64.size

/-- The reading by places comes to what the grammar answers, about every fragment and in every
state. -/
def Reads : Prop :=
  ∀ (g : γ) (fragment : Bytes),
    Comes (P.Fits fragment) (P.parseAt g fragment) (placed fragment (G.parse g fragment))

end Places

end Grammar

end MailProtocol
