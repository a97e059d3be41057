import MailProtocol.LogLabel
import MailProtocol.Malformed

/-!
# Text that is safe to show

A text is plain if it holds no control character (`Text.Plain`), so it stays on its line and does
nothing to a terminal, and it is visible if it holds printable ASCII only (`Text.Visible`). Bytes
made visible are visible whatever they are (`Text.visible_escape`). So a report of malformed input
is visible as a whole, as long as its fault is one of those that have a wording of their own
(`Malformed.shows`), and a label is plain whatever the names are that are put into it
(`LogLabel.Safe.plain_render`).

No more is changed than has to be: bytes that are printable (`Text.escape_eq_iff`) and names that
are plain and short (`LogLabel.sanitise_eq_self_iff`) stay as they are.
-/

namespace MailProtocol

namespace Text

/-- All characters of a text are such. -/
def All (p : Char → Prop) (s : String) : Prop := ∀ c ∈ s.toList, p c

instance {p : Char → Prop} [DecidablePred p] (s : String) : Decidable (All p s) :=
  decidable_of_iff (s.toList.all (p ·)) (by simp [All])

/-- A text without control characters. -/
abbrev Plain : String → Prop := All (LogLabel.isControl · = false)

/-- A character of printable ASCII. -/
def IsVisible (c : Char) : Prop := 0x20 ≤ c.toNat ∧ c.toNat ≤ 0x7E

instance : DecidablePred IsVisible := fun _ => inferInstanceAs (Decidable (_ ∧ _))

/-- A text of printable ASCII. -/
abbrev Visible : String → Prop := All IsVisible

section
variable {p q : Char → Prop} {s t : String}

theorem all_append : All p (s ++ t) ↔ All p s ∧ All p t := by
  rw [All, String.toList_append, List.forall_mem_append]
  rfl

theorem All.append (hs : All p s) (ht : All p t) : All p (s ++ t) := all_append.2 ⟨hs, ht⟩

theorem all_ofList {l : List Char} : All p (String.ofList l) ↔ ∀ c ∈ l, p c := by
  rw [All, String.toList_ofList]

theorem All.imp (h : ∀ c, p c → q c) (hs : All p s) : All q s := fun c hc => h c (hs c hc)

theorem all_intercalate {l : List String} (hsep : All p s) (h : ∀ t ∈ l, All p t) :
    All p (s.intercalate l) := by
  induction l with
  | nil => simp [All]
  | cons t l ih =>
    rw [List.forall_mem_cons] at h
    cases l with
    | nil => simpa using h.1
    | cons u l =>
      rw [String.intercalate_cons_cons]
      exact (h.1.append hsep).append (ih h.2)

end

/-- Printable ASCII has no control characters. -/
theorem IsVisible.isControl_eq_false {c : Char} (h : IsVisible c) :
    LogLabel.isControl c = false := by
  obtain ⟨hlow, hhigh⟩ := h
  simp only [LogLabel.isControl, Bool.or_eq_false_iff, Bool.and_eq_false_iff,
    decide_eq_false_iff_not]
  omega

theorem plain_of_visible {s : String} (h : Visible s) : Plain s :=
  h.imp fun _ => IsVisible.isControl_eq_false

theorem toString_eq_ofList_toDigits (n : Nat) : toString n = String.ofList (Nat.toDigits 10 n) :=
  rfl

theorem visible_natToString (n : Nat) : Visible (toString n) := by
  intro c hc
  rw [toString_eq_ofList_toDigits, String.toList_ofList] at hc
  have hdigit : c.isDigit := Nat.isDigit_of_mem_toDigits (by decide) (by decide) hc
  have hbounds : 48 ≤ c.toNat ∧ c.toNat ≤ 57 := by
    simpa [Char.isDigit, UInt32.le_iff_toNat_le] using hdigit
  exact ⟨Nat.le_trans (by decide) hbounds.1, Nat.le_trans hbounds.2 (by decide)⟩

theorem isVisible_hexUpper {n : Nat} (h : n < 16) : IsVisible (hexUpper n) := by
  have hall : ∀ n < 16, IsVisible (hexUpper n) := by decide
  exact hall n h

theorem toNat_ofNat_toNat (b : UInt8) : (Char.ofNat b.toNat).toNat = b.toNat := by
  have hlt := b.toNat_lt
  rw [Char.ofNat, dif_pos (.inl (by omega))]
  rfl

theorem isVisible_ofNat {b : UInt8} (h : Byte.isPrintable b) : IsVisible (Char.ofNat b.toNat) := by
  have hbounds : 32 ≤ b.toNat ∧ b.toNat ≤ 126 := by
    simpa [Byte.isPrintable, UInt8.le_iff_toNat_le] using h
  rw [IsVisible, toNat_ofNat_toNat]
  exact hbounds

theorem isVisible_of_mem_escapeByte {b : UInt8} {c : Char} (h : c ∈ escapeByte b) :
    IsVisible c := by
  rw [escapeByte] at h
  split at h
  · next hprintable =>
    obtain rfl := List.mem_singleton.1 h
    exact isVisible_ofNat hprintable
  · -- the others are a backslash and letters and digits
    have hshort {d : Char} (hd : IsVisible d) : ∀ c ∈ ['\\', d], IsVisible c := by
      simpa using ⟨by decide, hd⟩
    have hhex {d e : Char} (hd : IsVisible d) (he : IsVisible e) :
        ∀ c ∈ ['\\', 'x', d, e], IsVisible c := by
      simpa using ⟨by decide, by decide, hd, he⟩
    have hlt := b.toNat_lt
    split at h
    · exact hshort (by decide) c h
    · split at h
      · exact hshort (by decide) c h
      · split at h
        · exact hshort (by decide) c h
        · exact hhex (isVisible_hexUpper (by omega)) (isVisible_hexUpper (by omega)) c h

/-- Bytes made visible are visible, whatever they are. -/
theorem visible_escape (s : Bytes) : Visible (escape s) := by
  refine all_ofList.2 fun c hc => ?_
  obtain ⟨b, -, hb⟩ := List.mem_flatMap.1 hc
  exact isVisible_of_mem_escapeByte hb

theorem exists_escapeByte_of_not_isPrintable {b : UInt8} (h : ¬Byte.isPrintable b) :
    ∃ rest, escapeByte b = '\\' :: rest := by
  rw [escapeByte, if_neg h]
  split
  · exact ⟨_, rfl⟩
  · split
    · exact ⟨_, rfl⟩
    · split <;> exact ⟨_, rfl⟩

theorem flatMap_escapeByte_eq_map_iff {s : Bytes} :
    s.flatMap escapeByte = s.map (fun b => Char.ofNat b.toNat) ↔ ∀ b ∈ s, Byte.isPrintable b := by
  induction s with
  | nil => simp
  | cons b s ih =>
    rw [List.flatMap_cons, List.map_cons, List.forall_mem_cons, ← ih]
    by_cases hb : Byte.isPrintable b
    · rw [escapeByte, if_pos hb, List.singleton_append, List.cons_inj_right, and_iff_right hb]
    · -- a backslash stands in front, and it is printable itself
      obtain ⟨rest, hrest⟩ := exists_escapeByte_of_not_isPrintable hb
      rw [hrest, List.cons_append]
      refine ⟨fun h => absurd ?_ hb, fun h => absurd h.1 hb⟩
      have hslash : b.toNat = '\\'.toNat := by
        rw [(List.cons.inj h).1, toNat_ofNat_toNat]
      obtain rfl : b = 92 := UInt8.toNat_inj.1 hslash
      decide

/-- Bytes are shown as they are exactly if they are printable. -/
theorem escape_eq_iff {s : Bytes} :
    escape s = String.ofList (s.map fun b => Char.ofNat b.toNat) ↔ ∀ b ∈ s, Byte.isPrintable b := by
  rw [escape, String.ofList_inj, flatMap_escapeByte_eq_map_iff]

end Text

open Text

/-! ## Reports of malformed input -/

/-- The fault has a wording of its own, into which nothing but numbers is put. -/
def Fault.IsKnown : Fault → Prop
  | .other _ => False
  | _ => True

theorem Fault.IsKnown.visible_message {fault : Fault} (h : fault.IsKnown) :
    Visible fault.message := by
  cases fault with
  | other => exact h.elim
  | literalTooLong length =>
    have hhead : Visible "Literal of " := by decide
    exact (hhead.append (visible_natToString length)).append (by decide)
  | tooFewFields expected found =>
    have hhead : Visible "Too few fields in listing: expected " := by decide
    exact ((hhead.append (visible_natToString expected)).append (by decide)).append
      (visible_natToString found)
  | _ => decide

namespace Malformed

/-- What a report shows of the bytes that were refused. -/
def excerpt (m : Malformed) : String :=
  if m.raw.isEmpty then ""
  else " (" ++ escape (m.raw.take 128) ++ (if 128 < m.raw.length then "..." else "") ++ ")"

theorem visible_excerpt (m : Malformed) : Visible m.excerpt := by
  have hdots : Visible (if 128 < m.raw.length then "..." else "") := by
    split <;> decide
  rw [excerpt]
  split
  · decide
  · have hbegin : Visible " (" := by decide
    exact ((hbegin.append (visible_escape _)).append hdots).append (by decide)

/-- A report shows, in printable ASCII, what is wrong and the beginning of what was refused. -/
structure Shows (m : Malformed) : Prop where
  message : m.message = "Malformed input: " ++ m.fault.message ++ m.excerpt
  wording : Visible m.fault.message
  excerpt : Visible m.excerpt

theorem shows {m : Malformed} (h : m.fault.IsKnown) : m.Shows where
  message := by
    rw [Malformed.message, Malformed.excerpt]
    split
    · rw [String.append_empty]
    · simp only [String.append_assoc, shown, gt_iff_lt]
  wording := h.visible_message
  excerpt := m.visible_excerpt

theorem Shows.visible_message {m : Malformed} (h : m.Shows) : Visible m.message := by
  have hhead : Visible "Malformed input: " := by decide
  rw [h.message]
  exact (hhead.append h.wording).append h.excerpt

end Malformed

/-! ## Labels -/

namespace LogLabel

/-- What a label is made of is plain, and no name in it is long. -/
structure Safe (l : LogLabel) : Prop where
  protocol : Plain l.protocol
  connection : Plain l.connection
  peer : ∀ name ∈ l.peer, Plain name ∧ name.length ≤ 64
  user : ∀ name ∈ l.user, Plain name ∧ name.length ≤ 64

/-- Whatever a name was, what is kept of it is plain and not long. -/
theorem plain_sanitise (name : String) : Plain (sanitise name) ∧ (sanitise name).length ≤ 64 := by
  rw [sanitise]
  constructor
  · refine all_ofList.2 fun c hc => ?_
    have hkept := (List.mem_filter.1 (List.mem_of_mem_take hc)).2
    simpa using hkept
  · rw [String.length_ofList]
    exact List.length_take_le _ _

/-- A name is kept as it is exactly if it is plain and not long. -/
theorem sanitise_eq_self_iff {name : String} :
    sanitise name = name ↔ Plain name ∧ name.length ≤ 64 := by
  constructor
  · intro h
    have hplain := plain_sanitise name
    rwa [h] at hplain
  · rintro ⟨hplain, hlength⟩
    have hkept : name.toList.filter (!isControl ·) = name.toList :=
      List.filter_eq_self.2 fun c hc => by rw [hplain c hc, Bool.not_false]
    have hshort : name.toList.take nameLength = name.toList := List.take_of_length_le hlength
    rw [sanitise, hkept, hshort, String.ofList_toList]

namespace Safe

variable {l : LogLabel}

theorem setPeer (h : l.Safe) (name : String) : (l.setPeer name).Safe :=
  { h with peer := fun _ hname => Option.some.inj hname ▸ plain_sanitise name }

theorem setUser (h : l.Safe) (name : String) : (l.setUser name).Safe :=
  { h with user := fun _ hname => Option.some.inj hname ▸ plain_sanitise name }

theorem setTls (h : l.Safe) (tls : Bool) : (l.setTls tls).Safe := { h with }

theorem plain_details (h : l.Safe) : ∀ detail ∈ l.details, Plain detail := by
  intro detail hdetail
  rw [details, List.mem_append, List.mem_append, Option.mem_toList, Option.mem_toList] at hdetail
  rcases hdetail with (hpeer | huser) | htls
  · exact (h.peer detail hpeer).1
  · obtain ⟨name, hname, rfl⟩ := Option.map_eq_some_iff.1 huser
    have hkey : Plain "user=" := by decide
    exact hkey.append (h.user name hname).1
  · split at htls
    · obtain rfl := List.mem_singleton.1 htls
      decide
    · cases htls

/-- Safe labels are plain text. -/
theorem plain_render (h : l.Safe) : Plain l.render := by
  have hname : Plain (l.protocol ++ ":" ++ l.connection) :=
    (h.protocol.append (by decide)).append h.connection
  have hdetails := h.plain_details
  rw [render]
  split
  · exact hname
  · have hspaced : Plain (" ".intercalate l.details) := all_intercalate (by decide) hdetails
    exact ((hname.append (by decide)).append hspaced).append (by decide)

end Safe

/-- A name that is to begin a line of its own does not. -/
example : (setUser { protocol := "imap", connection := "7" } "jo\r\nhn").render
    = "imap:7[user=john]" := by decide

end LogLabel

end MailProtocol
