import MailProtocol.Imap.Tag
import MailProtocol.Proofs.Imap.Accepted
import MailProtocol.Proofs.Imap.ResponseRoundTrip
import Mathlib.Data.List.Nodup
import Mathlib.Data.List.Range

/-!
# Tags that tell commands apart

A client numbers its commands, and a tag is a number in hexadecimal digits. The number is read off
the digits, however many zeros are in front of them (`count_ofCount`), so the tags of two numbers
are different, and the numbering gives no tag twice before its counter starts over
(`Generator.nodup_takeMany_iff`).

All digits are bytes that a tag may have. So a server gives the tag back, with the command or with
the report of what is wrong with it (`belongs_parse`), and what a client reads under the tag is the
outcome of the command, and neither untagged nor a request to continue (`tagged_of_parse`).
-/

namespace MailProtocol.Imap.Tag

/-! ## Hexadecimal numbers -/

/-- What a hexadecimal digit counts for. -/
def digitValue (b : UInt8) : Nat := if b.toNat ≤ 57 then b.toNat - 48 else b.toNat - 87

/-- The number of a tag. -/
def count (tag : Bytes) : Nat := tag.foldl (fun n b => 16 * n + digitValue b) 0

theorem digitValue_digitChar {d : Nat} (h : d < 16) : digitValue d.digitChar.toUInt8 = d := by
  revert d
  decide

theorem isTagByte_digitChar {d : Nat} (h : d < 16) : isTagByte d.digitChar.toUInt8 = true := by
  revert d
  decide

/-- The digits of a number, one for each place. -/
def digits (n : Nat) : Bytes := (Nat.toDigits 16 n).map Char.toUInt8

theorem digits_of_lt {n : Nat} (h : n < 16) : digits n = [n.digitChar.toUInt8] := by
  rw [digits, Nat.toDigits_of_lt_base h]
  rfl

theorem digits_of_le {n : Nat} (h : 16 ≤ n) :
    digits n = digits (n / 16) ++ [(n % 16).digitChar.toUInt8] := by
  rw [digits, Nat.toDigits_of_base_le (by decide) h, List.map_append]
  rfl

/-- The digits of a number are one digit, or those of a number and one more. -/
theorem digits_induction {P : Nat → Bytes → Prop}
    (single : ∀ d < 16, P d [d.digitChar.toUInt8])
    (snoc : ∀ n s, ∀ d < 16, P n s → P (16 * n + d) (s ++ [d.digitChar.toUInt8])) (n : Nat) :
    P n (digits n) := by
  induction n using Nat.strong_induction_on with
  | _ n ih =>
  by_cases h : n < 16
  · rw [digits_of_lt h]
    exact single n h
  · have hn : 16 * (n / 16) + n % 16 = n := Nat.div_add_mod n 16
    rw [digits_of_le (Nat.le_of_not_lt h)]
    have hsnoc := snoc (n / 16) _ (n % 16) (Nat.mod_lt n (by decide)) (ih (n / 16) (by omega))
    rwa [hn] at hsnoc

theorem count_append_singleton (s : Bytes) (b : UInt8) :
    count (s ++ [b]) = 16 * count s + digitValue b := by
  rw [count, List.foldl_append]
  rfl

theorem count_digits (n : Nat) : count (digits n) = n := by
  refine digits_induction (P := fun n s => count s = n) (fun d h => ?_) (fun n s d h ih => ?_) n
  · exact (Nat.zero_add _).trans (digitValue_digitChar h)
  · rw [count_append_singleton, ih, digitValue_digitChar h]

theorem isTagByte_of_mem_digits {n : Nat} : ∀ b ∈ digits n, isTagByte b = true := by
  refine digits_induction (P := fun _ s => ∀ b ∈ s, isTagByte b = true) (fun d h => ?_)
    (fun n s d h ih => ?_) n
  · exact List.forall_mem_singleton.2 (isTagByte_digitChar h)
  · exact List.forall_mem_append.2 ⟨ih, List.forall_mem_singleton.2 (isTagByte_digitChar h)⟩

theorem count_replicate_append (k : Nat) (s : Bytes) :
    count (List.replicate k 48 ++ s) = count s := by
  induction k with
  | zero => rfl
  | succ k ih => exact ih

theorem ofCount_eq (n : UInt32) :
    ofCount n = List.replicate (4 - (digits n.toNat).length) 48 ++ digits n.toNat := rfl

theorem count_ofCount (n : UInt32) : count (ofCount n) = n.toNat := by
  rw [ofCount_eq, count_replicate_append, count_digits]

theorem ofCount_injective : Function.Injective ofCount := by
  intro m n h
  rw [← UInt32.toNat_inj, ← count_ofCount, h, count_ofCount]

theorem isTag_ofCount (n : UInt32) : Command.IsTag (ofCount n) := by
  rw [ofCount_eq]
  refine ⟨List.append_ne_nil_of_right_ne_nil _ ?_, List.forall_mem_append.2 ⟨?_, ?_⟩⟩
  · rw [digits, ne_eq, List.map_eq_nil_iff]
    exact Nat.toDigits_ne_nil
  · intro b hb
    obtain rfl := List.eq_of_mem_replicate hb
    decide
  · exact isTagByte_of_mem_digits

/-! ## Numbering -/

namespace Generator

variable {g : Generator} {n : Nat}

/-- The tags come by their numbers, and the numbering goes on behind them. -/
theorem takeMany_eq (g : Generator) (n : Nat) :
    g.takeMany n = ((List.range n).map fun k => ofCount (g.next + k.toUInt32), g.skip n) := by
  have hzero (c : UInt32) : c + (0 : Nat).toUInt32 = c := UInt32.add_zero c
  induction n generalizing g with
  | zero =>
    rw [takeMany, skip, hzero]
    rfl
  | succ n ih =>
    have hnext (k : Nat) : g.next + 1 + k.toUInt32 = g.next + (k + 1).toUInt32 := by
      rw [UInt32.add_assoc, UInt32.add_comm 1]
      exact congrArg (g.next + ·) (UInt32.ofNat_add k 1).symm
    simp only [takeMany, take, ih, List.range_succ_eq_map, List.map_cons, List.map_map, skip,
      Function.comp_def, hnext, hzero, Nat.succ_eq_add_one]

/-- The numbering starts over after `2 ^ 32` tags and no sooner. -/
theorem nodup_takeMany_iff : (g.takeMany n).1.Nodup ↔ n ≤ 2 ^ 32 := by
  rw [takeMany_eq, List.nodup_map_iff_inj_on List.nodup_range]
  constructor
  · intro hinj
    by_contra hn
    -- the counter is where it was, so the first tag comes again
    have hagain : ofCount (g.next + (2 ^ 32 : Nat).toUInt32)
        = ofCount (g.next + (0 : Nat).toUInt32) := rfl
    have heq := hinj _ (List.mem_range.2 (Nat.lt_of_not_le hn)) _
      (List.mem_range.2 (by omega)) hagain
    exact absurd heq (by decide)
  · intro hn j hj k hk heq
    have hsum := (UInt32.add_right_inj _).1 (ofCount_injective heq)
    have hmod : j % 2 ^ 32 = k % 2 ^ 32 := congrArg UInt32.toNat hsum
    rw [List.mem_range] at hj hk
    omega

end Generator

/-! ## Tags that servers and clients know -/

variable {tag s : Bytes}

/-- What has been read belongs to the command with this tag, and so does what is reported. -/
def Belongs (tag : Bytes) : Except Malformed (Parsed Command) → Prop
  | .ok (.complete c _) => c.tag = tag
  | .ok (.incomplete _) => True
  | .error report => report.tag = some tag

theorem belongs_parseVerb (maxLiteral : Nat) (tag : Bytes) (uid : Bool) (s : Bytes) :
    Belongs tag (Command.parseVerb maxLiteral tag uid s) := by
  unfold Command.parseVerb
  simp only
  split
  · rfl
  · split
    · rfl
    · split
      · rfl
      · trivial
      · rfl
    · rfl

theorem belongs_parse (h : Command.IsTag tag) (maxLiteral : Nat) (s : Bytes) :
    Belongs tag (Command.parse maxLiteral (tag ++ Byte.space :: s)) := by
  obtain ⟨hword, hafter⟩ := Line.word_append h.endsWord (b := Byte.space) rfl s
  unfold Command.parse
  simp only [hword, hafter, List.isEmpty_eq_false_iff.2 h.1, List.all_eq_true.2 h.2,
    Bool.false_eq_true, if_false, Bool.not_true]
  show Belongs tag (if _ then _ else _)
  split
  · split
    · exact belongs_parseVerb maxLiteral tag true _
    · rfl
  · exact belongs_parseVerb maxLiteral tag false s

/-- A tag of commands is not taken for a request to continue. -/
theorem isTag_response (h : Command.IsTag tag) : Response.IsTag tag := by
  refine ⟨⟨h.1, h.endsWord⟩, fun hhead => ?_⟩
  exact absurd (h.2 _ (List.mem_of_head? hhead)) (by decide)

theorem ne_untaggedTag (h : Command.IsTag tag) : tag ≠ Response.untaggedTag := by
  rintro rfl
  exact absurd (h.2 _ (List.mem_singleton_self _)) (by decide)

/-- A response under a tag of commands is the outcome of that command. -/
theorem tagged_of_parse (h : Command.IsTag tag) {maxLiteral : Nat} {unit : Response} {rest : Bytes}
    (hparse : (Response.parse maxLiteral (tag ++ Byte.space :: s)).2 = .ok (.complete unit rest)) :
    ∃ status, unit = .tagged tag status := by
  have hkind := Response.kind_tag (isTag_response h) s
  rw [Response.afterTag] at hkind
  split at hkind
  · rw [Response.snd_parse_of_status hkind] at hparse
    obtain ⟨_, _, text, -, -, -, hunit⟩ := Response.of_parseStatus hparse
    obtain ⟨rfl, -⟩ := Parsed.complete.inj hunit
    exact ⟨_, if_neg (ne_untaggedTag h)⟩
  · rw [if_neg (ne_untaggedTag h)] at hkind
    rw [Response.snd_parse_of_wrong hkind] at hparse
    cases hparse

/-- A tag that servers and clients know as what it is. -/
structure Known (tag : Bytes) : Prop where
  isTag : Command.IsTag tag
  /-- Whatever comes behind the tag, a server gives the tag back. -/
  belongs : ∀ (config : Config) (s : Bytes),
    Belongs tag ((Command.grammar config).parse () (tag ++ Byte.space :: s)).2
  /-- A well-formed command under the tag is read back. -/
  command : ∀ (config : Config) (w : Command.Writer) (c : Command) (t : Bytes), c.tag = tag →
    c.WellFormed config.limits.maxLiteralLength →
      (Command.grammar config).parse () ((c.write w).concat ++ t)
        = ((), .ok (.complete
            { c with tag, continuation := !w.literalPlus && Item.anyLiteral c.args } t))
  /-- Whatever comes behind the tag, a client reads no other response than an outcome. -/
  tagged : ∀ (config : Config) (inData : Bool) (s : Bytes) (unit : Response) (rest : Bytes),
    ((Response.grammar config).parse inData (tag ++ Byte.space :: s)).2
        = .ok (.complete unit rest) →
      ∃ status, unit = .tagged tag status
  /-- A well-formed outcome under the tag is read back. -/
  outcome : ∀ (config : Config) (inData : Bool) (status : Status) (t : Bytes),
    status.text.WellFormed config.limits.maxLiteralLength →
      ∃ r, (Response.grammar config).parse inData ((Response.tagged tag status).write.concat ++ t)
        = (false, .ok (.complete r t)) ∧ r.Same (.tagged tag status)

theorem known_of_isTag (h : Command.IsTag tag) : Known tag where
  isTag := h
  belongs _ s := belongs_parse h _ s
  command config w c t := by
    rintro rfl hwell
    show ((), Command.parse _ _) = _
    rw [Command.concat_write, List.append_assoc, List.append_assoc,
      Command.parse_heading_writeMore hwell.heading hwell.args, Command.waits_pos_iff]
  tagged _ _ _ _ _ := tagged_of_parse h
  outcome config inData status t hstatus := by
    rw [Response.write, Segments.concat_append, Segments.concat_ofBytes, List.append_assoc]
    exact Response.parse_writeContent (.tagged (isTag_response h) (ne_untaggedTag h) hstatus) t

/-- The tags tell `n` commands apart, and are known as what they are. -/
structure Numbers (tags : List Bytes) (n : Nat) : Prop where
  length : tags.length = n
  nodup_iff : tags.Nodup ↔ n ≤ 2 ^ 32
  known : ∀ tag ∈ tags, Known tag

/-- From wherever the numbering stands, the next tags are all different as long as there are no more
than `2 ^ 32` of them, and each is known to servers and clients as what it is. -/
theorem numbers_takeMany (g : Generator) (n : Nat) : Numbers (g.takeMany n).1 n where
  length := by rw [Generator.takeMany_eq, List.length_map, List.length_range]
  nodup_iff := Generator.nodup_takeMany_iff
  known tag htag := by
    rw [Generator.takeMany_eq] at htag
    obtain ⟨k, -, rfl⟩ := List.mem_map.1 htag
    exact known_of_isTag (isTag_ofCount _)

/-- The number that fills the counter takes more than four digits, and the next one starts over. -/
example : (({ next := 0xFFFFFFFE } : Generator).takeMany 3).1
    = [Bytes.ascii "fffffffe", Bytes.ascii "ffffffff", Bytes.ascii "0000"] := by decide +kernel

end MailProtocol.Imap.Tag
