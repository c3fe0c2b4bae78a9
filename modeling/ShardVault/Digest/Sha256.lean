import ShardVault.Bytes

/-!
The 256-bit secure hash.  A message is extended to whole 64-byte blocks (`padding`), and every
block turns the eight chaining words into the next eight (`compress`).  `hash` reads a whole
message; `State` takes it byte by byte, so that a message can arrive in pieces and a run can be
continued from any point.
-/

namespace ShardVault.Sha256

/-- The eight chaining words. -/
structure Chain where
  a : UInt32
  b : UInt32
  c : UInt32
  d : UInt32
  e : UInt32
  f : UInt32
  g : UInt32
  h : UInt32
deriving DecidableEq, Repr

/-- The chaining words before the first block. -/
def Chain.initial : Chain :=
  ⟨0x6a09e667, 0xbb67ae85, 0x3c6ef372, 0xa54ff53a,
    0x510e527f, 0x9b05688c, 0x1f83d9ab, 0x5be0cd19⟩

/-- One constant for each of the 64 rounds. -/
def roundConstants : List UInt32 :=
  [0x428a2f98, 0x71374491, 0xb5c0fbcf, 0xe9b5dba5, 0x3956c25b, 0x59f111f1, 0x923f82a4, 0xab1c5ed5,
    0xd807aa98, 0x12835b01, 0x243185be, 0x550c7dc3, 0x72be5d74, 0x80deb1fe, 0x9bdc06a7, 0xc19bf174,
    0xe49b69c1, 0xefbe4786, 0x0fc19dc6, 0x240ca1cc, 0x2de92c6f, 0x4a7484aa, 0x5cb0a9dc, 0x76f988da,
    0x983e5152, 0xa831c66d, 0xb00327c8, 0xbf597fc7, 0xc6e00bf3, 0xd5a79147, 0x06ca6351, 0x14292967,
    0x27b70a85, 0x2e1b2138, 0x4d2c6dfc, 0x53380d13, 0x650a7354, 0x766a0abb, 0x81c2c92e, 0x92722c85,
    0xa2bfe8a1, 0xa81a664b, 0xc24b8b70, 0xc76c51a3, 0xd192e819, 0xd6990624, 0xf40e3585, 0x106aa070,
    0x19a4c116, 0x1e376c08, 0x2748774c, 0x34b0bcb5, 0x391c0cb3, 0x4ed8aa4a, 0x5b9cca4f, 0x682e6ff3,
    0x748f82ee, 0x78a5636f, 0x84c87814, 0x8cc70208, 0x90befffa, 0xa4506ceb, 0xbef9a3f7, 0xc67178f2]

/-- Rotation to the right, by less than the width of a word. -/
def rotate (word amount : UInt32) : UInt32 :=
  (word >>> amount) ||| (word <<< (32 - amount))

/-- The big-endian words of a byte string; up to three bytes at the end are no word. -/
def words : Bytes → List UInt32
  | a :: b :: c :: d :: rest =>
    ((a.toUInt32 <<< 24) ||| (b.toUInt32 <<< 16) ||| (c.toUInt32 <<< 8) ||| d.toUInt32) ::
      words rest
  | _ => []

/-- The four bytes of a word, the highest first. -/
def wordBytes (word : UInt32) : Bytes :=
  [(word >>> 24).toUInt8, (word >>> 16).toUInt8, (word >>> 8).toUInt8, word.toUInt8]

/-- Appends `count` words to the message schedule, each from the sixteen before it. -/
def extend : Nat → Array UInt32 → Array UInt32
  | 0, schedule => schedule
  | count + 1, schedule =>
    let back := fun i => schedule.getD (schedule.size - i) 0
    let x := back 15
    let y := back 2
    let low := rotate x 7 ^^^ rotate x 18 ^^^ (x >>> 3)
    let high := rotate y 17 ^^^ rotate y 19 ^^^ (y >>> 10)
    extend count (schedule.push (back 16 + low + back 7 + high))

/-- One round, with its constant and its word of the schedule already added up. -/
def round (s : Chain) (input : UInt32) : Chain :=
  let sum1 := rotate s.e 6 ^^^ rotate s.e 11 ^^^ rotate s.e 25
  let choice := (s.e &&& s.f) ^^^ ((~~~s.e) &&& s.g)
  let first := s.h + sum1 + choice + input
  let sum0 := rotate s.a 2 ^^^ rotate s.a 13 ^^^ rotate s.a 22
  let majority := (s.a &&& s.b) ^^^ (s.a &&& s.c) ^^^ (s.b &&& s.c)
  ⟨first + (sum0 + majority), s.a, s.b, s.c, s.d + first, s.e, s.f, s.g⟩

/-- The chaining words after one block. -/
def compress (s : Chain) (block : Bytes) : Chain :=
  let schedule := (extend 48 (words block).toArray).toList
  let t := (List.zipWith (· + ·) roundConstants schedule).foldl round s
  ⟨s.a + t.a, s.b + t.b, s.c + t.c, s.d + t.d, s.e + t.e, s.f + t.f, s.g + t.g, s.h + t.h⟩

/-- What follows a message of `length` bytes: a set bit, zeros, and the length in bits as 64
    big-endian bits.  It fills the last block exactly. -/
def padding (length : Nat) : Bytes :=
  let bits := UInt64.ofNat (8 * length)
  ((0x80 : UInt8) :: List.replicate ((119 - length % 64) % 64) 0) ++
    (wordBytes (bits >>> 32).toUInt32 ++ wordBytes bits.toUInt32)

/-- The chaining words as bytes. -/
def Chain.bytes (s : Chain) : Vector UInt8 32 :=
  ⟨(wordBytes s.a ++ wordBytes s.b ++ wordBytes s.c ++ wordBytes s.d ++
    wordBytes s.e ++ wordBytes s.f ++ wordBytes s.g ++ wordBytes s.h).toArray, rfl⟩

/-- The hash of a whole message. -/
def hash (message : Bytes) : Vector UInt8 32 :=
  ((Bytes.windows 64 (message ++ padding message.length)).foldl compress Chain.initial).bytes

/-- A message read so far: the chaining words after its whole blocks, the bytes after the last
    whole block (newest first), and its length. -/
structure State where
  chain : Chain
  pending : Bytes
  length : Nat
deriving DecidableEq, Repr

namespace State

/-- Nothing read yet. -/
def initial : State :=
  ⟨Chain.initial, [], 0⟩

/-- Reads one byte; the byte that completes a block has it compressed. -/
def push (s : State) (byte : UInt8) : State :=
  let length := s.length + 1
  if length % 64 = 0 then ⟨compress s.chain (byte :: s.pending).reverse, [], length⟩
  else ⟨s.chain, byte :: s.pending, length⟩

/-- Reads a run of bytes. -/
def absorb (s : State) (bytes : Bytes) : State :=
  bytes.foldl push s

theorem absorb_append (s : State) (left right : Bytes) :
    s.absorb (left ++ right) = (s.absorb left).absorb right := by
  simp [absorb]

/-- The hash of the message read so far. -/
def finish (s : State) : Vector UInt8 32 :=
  (s.absorb (padding s.length)).chain.bytes

end State

end ShardVault.Sha256
