import MailProtocol.Bytes.Basic

/-!
# The MD5 digest

The message is closed by a one bit, filled with zeros to eight bytes short of a multiple of 64 and
ended by its length in bits. Each block of 64 bytes, read as sixteen little-endian words, is mixed
into four words of state by 64 steps; the state at the end, as bytes, is the digest.
-/

namespace MailProtocol.Md5

/-- The four words that a message is mixed into. -/
structure State where
  a : UInt32
  b : UInt32
  c : UInt32
  d : UInt32
deriving DecidableEq, Repr

namespace State

/-- The state before the first block. -/
def start : State := ⟨0x67452301, 0xefcdab89, 0x98badcfe, 0x10325476⟩

/-- Word by word. -/
def add (s t : State) : State := ⟨s.a + t.a, s.b + t.b, s.c + t.c, s.d + t.d⟩

end State

/-- The constant of each step: the integer part of `2 ^ 32 * |sin (i + 1)|`. -/
def constants : List UInt32 := [
  0xd76aa478, 0xe8c7b756, 0x242070db, 0xc1bdceee, 0xf57c0faf, 0x4787c62a, 0xa8304613, 0xfd469501,
  0x698098d8, 0x8b44f7af, 0xffff5bb1, 0x895cd7be, 0x6b901122, 0xfd987193, 0xa679438e, 0x49b40821,
  0xf61e2562, 0xc040b340, 0x265e5a51, 0xe9b6c7aa, 0xd62f105d, 0x02441453, 0xd8a1e681, 0xe7d3fbc8,
  0x21e1cde6, 0xc33707d6, 0xf4d50d87, 0x455a14ed, 0xa9e3e905, 0xfcefa3f8, 0x676f02d9, 0x8d2a4c8a,
  0xfffa3942, 0x8771f681, 0x6d9d6122, 0xfde5380c, 0xa4beea44, 0x4bdecfa9, 0xf6bb4b60, 0xbebfbc70,
  0x289b7ec6, 0xeaa127fa, 0xd4ef3085, 0x04881d05, 0xd9d4d039, 0xe6db99e5, 0x1fa27cf8, 0xc4ac5665,
  0xf4292244, 0x432aff97, 0xab9423a7, 0xfc93a039, 0x655b59c3, 0x8f0ccc92, 0xffeff47d, 0x85845dd1,
  0x6fa87e4f, 0xfe2ce6e0, 0xa3014314, 0x4e0811a1, 0xf7537e82, 0xbd3af235, 0x2ad7d2bb, 0xeb86d391]

/-- The bits by which step `i` rotates. -/
def shift (i : Nat) : UInt32 :=
  let amounts : List UInt32 := match i / 16 with
    | 0 => [7, 12, 17, 22]
    | 1 => [5, 9, 14, 20]
    | 2 => [4, 11, 16, 23]
    | _ => [6, 10, 15, 21]
  amounts.getD (i % 4) 0

/-- How step `i` combines three words. -/
def combine (i : Nat) (b c d : UInt32) : UInt32 :=
  match i / 16 with
  | 0 => (b &&& c) ||| (~~~b &&& d)
  | 1 => (d &&& b) ||| (~~~d &&& c)
  | 2 => b ^^^ c ^^^ d
  | _ => c ^^^ (b ||| ~~~d)

/-- The word of the block that step `i` takes. -/
def index (i : Nat) : Nat :=
  match i / 16 with
  | 0 => i
  | 1 => (5 * i + 1) % 16
  | 2 => (3 * i + 5) % 16
  | _ => (7 * i) % 16

/-- Rotate a word to the left, by more than no bits and less than all. -/
def rotate (x n : UInt32) : UInt32 := (x <<< n) ||| (x >>> (32 - n))

/-- One step with its constant. -/
def step (block : List UInt32) (s : State) (i : Nat) (constant : UInt32) : State :=
  let mixed := s.a + combine i s.b s.c s.d + constant + block.getD (index i) 0
  ⟨s.d, s.b + rotate mixed (shift i), s.b, s.c⟩

/-- Mix one block into the state. -/
def mix (s : State) (block : List UInt32) : State :=
  s.add (constants.zipIdx.foldl (fun t (constant, i) => step block t i constant) s)

/-- The bytes of a number, the lowest first. -/
def littleEndian (count n : Nat) : Bytes := (List.range count).map fun i => (n >>> (8 * i)).toUInt8

/-- The message with its filling and its length. -/
def pad (s : Bytes) : Bytes :=
  s ++ 0x80 :: List.replicate ((119 - s.length % 64) % 64) 0 ++ littleEndian 8 (8 * s.length)

/-- The words of a string of bytes, the lowest byte of each first. -/
def words : Bytes → List UInt32
  | a :: b :: c :: d :: rest =>
    (a.toUInt32 ||| b.toUInt32 <<< 8 ||| c.toUInt32 <<< 16 ||| d.toUInt32 <<< 24) :: words rest
  | _ => []

/-- The blocks of a padded message. -/
def blocks (ws : List UInt32) : List (List UInt32) :=
  (List.range (ws.length / 16)).map fun i => (ws.drop (16 * i)).take 16

/-- The digest of a message, sixteen bytes. -/
def digest (s : Bytes) : Bytes :=
  let t := (blocks (words (pad s))).foldl mix .start
  [t.a, t.b, t.c, t.d].flatMap fun w => littleEndian 4 w.toNat

/-- Bytes in lower-case hexadecimal. -/
def hex (s : Bytes) : Bytes :=
  s.flatMap fun b => [b.toNat / 16, b.toNat % 16].map fun n => (Nat.digitChar n).toUInt8

end MailProtocol.Md5
