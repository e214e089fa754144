/-!
# The hash function BLAKE3

The 32-byte hash of a list of bytes. The bytes are cut into chunks of 1024 bytes and these into
blocks of 64; `compress` folds one block into a chaining value, and the chaining values of two
subtrees are compressed into that of the tree above them.
-/

namespace Depsolve.Blake3

/-- Four words, on which the rounds work side by side. -/
structure Row where
  w0 : UInt32
  w1 : UInt32
  w2 : UInt32
  w3 : UInt32

namespace Row

/-- The operation on each pair of words. -/
def zipWith (f : UInt32 → UInt32 → UInt32) (x y : Row) : Row :=
  ⟨f x.w0 y.w0, f x.w1 y.w1, f x.w2 y.w2, f x.w3 y.w3⟩

/-- The words moved one place to the front. -/
def rotate (x : Row) : Row := ⟨x.w1, x.w2, x.w3, x.w0⟩

/-- The words in order. -/
def toList (x : Row) : List UInt32 := [x.w0, x.w1, x.w2, x.w3]

end Row

/-- The word rotated to the right. -/
def rotateRight (x count : UInt32) : UInt32 :=
  (x >>> count) ||| (x <<< (32 - count))

/-- The sixteen words of the state as four rows. -/
structure State where
  a : Row
  b : Row
  c : Row
  d : Row

/-- A chaining value: eight words. -/
structure Chain where
  low : Row
  high : Row

/-- A block of sixteen message words. -/
abbrev Block := Vector UInt32 16

/-- Mixes two rows of message words into the four columns of the state. -/
def State.mix (s : State) (x y : Row) : State :=
  let turn (k : UInt32) (u v : UInt32) : UInt32 := rotateRight (u ^^^ v) k
  let a := .zipWith (· + ·) (.zipWith (· + ·) s.a s.b) x
  let d := .zipWith (turn 16) s.d a
  let c := .zipWith (· + ·) s.c d
  let b := .zipWith (turn 12) s.b c
  let a := .zipWith (· + ·) (.zipWith (· + ·) a b) y
  let d := .zipWith (turn 8) d a
  let c := .zipWith (· + ·) c d
  let b := .zipWith (turn 7) b c
  ⟨a, b, c, d⟩

/-- Turns the diagonals of the state into its columns. -/
def State.toDiagonals (s : State) : State :=
  ⟨s.a, s.b.rotate, s.c.rotate.rotate, s.d.rotate.rotate.rotate⟩

/-- Turns the columns of the state back into its diagonals. -/
def State.ofDiagonals (s : State) : State :=
  ⟨s.a, s.b.rotate.rotate.rotate, s.c.rotate.rotate, s.d.rotate⟩

/-- One round: the columns, then the diagonals. -/
def State.round (s : State) (m : Block) : State :=
  let columns := s.mix ⟨m[0], m[2], m[4], m[6]⟩ ⟨m[1], m[3], m[5], m[7]⟩
  let diagonals := columns.toDiagonals.mix ⟨m[8], m[10], m[12], m[14]⟩ ⟨m[9], m[11], m[13], m[15]⟩
  diagonals.ofDiagonals

/-- The order of the message words in the next round. -/
def permute (m : Block) : Block :=
  #v[m[2], m[6], m[3], m[10], m[7], m[0], m[4], m[13], m[1], m[11], m[12], m[5], m[9], m[14], m[15],
    m[8]]

/-- A number of rounds, with the message words permuted between them. -/
def State.rounds : Nat → State → Block → State
  | 0, s, _ => s
  | n + 1, s, m => (s.round m).rounds n (permute m)

/-- The initial chaining value. -/
def initial : Chain :=
  ⟨⟨0x6A09E667, 0xBB67AE85, 0x3C6EF372, 0xA54FF53A⟩,
    ⟨0x510E527F, 0x9B05688C, 0x1F83D9AB, 0x5BE0CD19⟩⟩

/-- The flag of the first block of a chunk. -/
def chunkStart : UInt32 := 1

/-- The flag of the last block of a chunk. -/
def chunkEnd : UInt32 := 2

/-- The flag of a block that holds two chaining values. -/
def parent : UInt32 := 4

/-- The flag of the last compression. -/
def root : UInt32 := 8

/-- A block about to be compressed. -/
structure Node where
  /-- The chaining value to fold the block into. -/
  chain : Chain
  block : Block
  counter : UInt64
  size : UInt32
  flags : UInt32

/-- Compresses a block into a chaining value. -/
def Node.compress (n : Node) : Chain :=
  let s : State := {
    a := n.chain.low
    b := n.chain.high
    c := initial.low
    d := ⟨n.counter.toUInt32, (n.counter >>> 32).toUInt32, n.size, n.flags⟩ }
  let s := s.rounds 7 n.block
  ⟨.zipWith (· ^^^ ·) s.a s.c, .zipWith (· ^^^ ·) s.b s.d⟩

/-- The little-endian word of up to four bytes. -/
def word : List UInt8 → UInt32
  | [] => 0
  | b :: rest => b.toUInt32 ||| (word rest <<< 8)

/-- The message words of up to 64 bytes, filled up with zeros. -/
def blockOf (bytes : List UInt8) : Block :=
  Vector.ofFn fun i => word ((bytes.drop (4 * i.val)).take 4)

/-- The last block of a chunk; the blocks before it go into the chaining value. -/
def chunkFrom (chain : Chain) (counter : UInt64) (start : UInt32) (bytes : List UInt8) : Node :=
  if 64 < bytes.length then
    let first : Node := ⟨chain, blockOf (bytes.take 64), counter, 64, start⟩
    chunkFrom first.compress counter 0 (bytes.drop 64)
  else ⟨chain, blockOf bytes, counter, bytes.length.toUInt32, start ||| chunkEnd⟩
termination_by bytes.length
decreasing_by simp; omega

/-- The number of bytes in a chunk. -/
def chunkSize : Nat := 1024

/-- The number of bytes in the left subtree of a tree of more than one chunk: the greatest power of
two of chunks that leaves something for the right one. -/
def leftSize (size : Nat) : Nat :=
  chunkSize * Nat.pow 2 ((size - 1) / chunkSize).log2

theorem leftSize_pos (size : Nat) : 0 < leftSize size :=
  Nat.mul_pos (by decide) (Nat.two_pow_pos _)

theorem leftSize_lt {size : Nat} (h : chunkSize < size) : leftSize size < size := by
  have hpos : (size - 1) / chunkSize ≠ 0 := by
    simp only [chunkSize] at h ⊢
    omega
  have hle : Nat.pow 2 ((size - 1) / chunkSize).log2 ≤ (size - 1) / chunkSize :=
    Nat.log2_self_le hpos
  have hmul : chunkSize * Nat.pow 2 ((size - 1) / chunkSize).log2 ≤ size - 1 :=
    Nat.le_trans (Nat.mul_le_mul_left _ hle) (Nat.mul_div_le _ _)
  simp only [leftSize]
  omega

/-- The words of two chaining values as a block. -/
def pairBlock (l r : Chain) : Block :=
  #v[l.low.w0, l.low.w1, l.low.w2, l.low.w3, l.high.w0, l.high.w1, l.high.w2, l.high.w3,
    r.low.w0, r.low.w1, r.low.w2, r.low.w3, r.high.w0, r.high.w1, r.high.w2, r.high.w3]

/-- The top block of the tree over some bytes, the first of which stand in a given chunk. -/
def tree (counter : UInt64) (bytes : List UInt8) : Node :=
  if _ : chunkSize < bytes.length then
    let left := leftSize bytes.length
    let l := tree counter (bytes.take left)
    let r := tree (counter + (left / chunkSize).toUInt64) (bytes.drop left)
    ⟨initial, pairBlock l.compress r.compress, 0, 64, parent⟩
  else chunkFrom initial counter chunkStart bytes
termination_by bytes.length
decreasing_by
  · simp only [List.length_take]
    have := leftSize_lt ‹chunkSize < bytes.length›
    omega
  · simp only [List.length_drop]
    have := leftSize_pos bytes.length
    omega

/-- The digits of a byte in lower-case hexadecimal. -/
def hexByte (b : UInt8) : String :=
  String.ofList [Nat.digitChar (b.toNat / 16), Nat.digitChar (b.toNat % 16)]

/-- The bytes of a word, the lowest first. -/
def wordBytes (w : UInt32) : List UInt8 :=
  [w.toUInt8, (w >>> 8).toUInt8, (w >>> 16).toUInt8, (w >>> 24).toUInt8]

/-- The hash of some bytes in hexadecimal. -/
def hash (bytes : List UInt8) : String :=
  let top := tree 0 bytes
  let out : Chain := { top with flags := top.flags ||| root }.compress
  String.join (((out.low.toList ++ out.high.toList).flatMap wordBytes).map hexByte)

end Depsolve.Blake3
