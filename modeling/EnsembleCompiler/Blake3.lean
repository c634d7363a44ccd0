/-!
# The BLAKE3 hash

The 256-bit unkeyed hash. The input is cut into chunks of 1024 bytes, which are the leaves of a
binary tree; each left subtree holds the largest power of two of chunks that leaves something to
its right. A chunk is a chain of blocks of 64 bytes, an inner node is one block that holds the
chaining values of its children, and the last compression of the whole tree gives the digest.
-/

namespace EnsembleCompiler.Blake3

/-- Eight words that a compression hands on. -/
abbrev Chain := Vector UInt32 8

/-- Sixteen words: a message block, or the state of a compression. -/
abbrev Block := Vector UInt32 16

def initial : Chain :=
  #v[0x6A09E667, 0xBB67AE85, 0x3C6EF372, 0xA54FF53A, 0x510E527F, 0x9B05688C, 0x1F83D9AB, 0x5BE0CD19]

/-- The first block of a chunk. -/
def chunkStart : UInt32 := 1
/-- The last block of a chunk. -/
def chunkEnd : UInt32 := 2
/-- A node with two children. -/
def parent : UInt32 := 4
/-- The last compression of the tree. -/
def root : UInt32 := 8

def rotateRight (x : UInt32) (n : UInt32) : UInt32 := (x >>> n) ||| (x <<< (32 - n))

/-- Mixes two message words into four words of the state. -/
def mix (v : Block) (a b c d : Fin 16) (x y : UInt32) : Block :=
  let a₁ := v[a] + v[b] + x
  let d₁ := rotateRight (v[d] ^^^ a₁) 16
  let c₁ := v[c] + d₁
  let b₁ := rotateRight (v[b] ^^^ c₁) 12
  let a₂ := a₁ + b₁ + y
  let d₂ := rotateRight (d₁ ^^^ a₂) 8
  let c₂ := c₁ + d₂
  let b₂ := rotateRight (b₁ ^^^ c₂) 7
  (((v.set a a₂).set b b₂).set c c₂).set d d₂

/-- One round: the columns of the state, then its diagonals. -/
def mixAll (v m : Block) : Block :=
  let v := mix v 0 4 8 12 m[0] m[1]
  let v := mix v 1 5 9 13 m[2] m[3]
  let v := mix v 2 6 10 14 m[4] m[5]
  let v := mix v 3 7 11 15 m[6] m[7]
  let v := mix v 0 5 10 15 m[8] m[9]
  let v := mix v 1 6 11 12 m[10] m[11]
  let v := mix v 2 7 8 13 m[12] m[13]
  mix v 3 4 9 14 m[14] m[15]

/-- The order of the message words for the next round. -/
def permute (m : Block) : Block :=
  #v[m[2], m[6], m[3], m[10], m[7], m[0], m[4], m[13],
    m[1], m[11], m[12], m[5], m[9], m[14], m[15], m[8]]

/-- `n` rounds, with the message words permuted between them. -/
def rounds : Nat → Block → Block → Block
  | 0, v, _ => v
  | n + 1, v, m => rounds n (mixAll v m) (permute m)

/-- A compression that has not been run yet. -/
structure Node where
  chain : Chain
  block : Block
  counter : UInt64
  length : UInt32
  flags : UInt32

/-- The first eight words of a compression. -/
def Node.compress (node : Node) : Chain :=
  let h := node.chain
  let v : Block :=
    #v[h[0], h[1], h[2], h[3], h[4], h[5], h[6], h[7],
      initial[0], initial[1], initial[2], initial[3],
      node.counter.toUInt32, (node.counter >>> 32).toUInt32, node.length, node.flags]
  let v := rounds 7 v node.block
  Vector.ofFn fun (i : Fin 8) => v[i.val] ^^^ v[i.val + 8]

/-- The word of four bytes, the lowest first. -/
def wordOf (bytes : List UInt8) : UInt32 :=
  bytes.foldr (fun b acc => acc <<< 8 ||| b.toUInt32) 0

/-- The words of up to 64 bytes, filled up with zeros. -/
def blockOf (bytes : List UInt8) : Block :=
  Vector.ofFn fun (i : Fin 16) => wordOf ((bytes.drop (4 * i.val)).take 4)

/-- The last compression of a chunk, after those of its earlier blocks. -/
def chunkNode (counter : UInt64) (chain : Chain) (flags : UInt32) (bytes : List UInt8) : Node :=
  if _h : bytes.length ≤ 64 then
    ⟨chain, blockOf bytes, counter, bytes.length.toUInt32, flags ||| chunkEnd⟩
  else
    let first : Node := ⟨chain, blockOf (bytes.take 64), counter, 64, flags⟩
    chunkNode counter first.compress 0 (bytes.drop 64)
termination_by bytes.length
decreasing_by simp; omega

/-- The number of bytes in the left subtree over an input of more than one chunk. -/
def leftLength (length : Nat) : Nat := 1024 * Nat.pow 2 ((length - 1) / 1024).log2

theorem leftLength_pos (length : Nat) : 0 < leftLength length :=
  Nat.mul_pos (by decide) (Nat.two_pow_pos _)

theorem leftLength_lt {length : Nat} (h : 1024 < length) : leftLength length < length := by
  have hk : Nat.pow 2 ((length - 1) / 1024).log2 ≤ (length - 1) / 1024 :=
    Nat.log2_self_le (by omega)
  unfold leftLength
  omega

/-- The last compression of the tree over an input whose first chunk has the number `counter`. -/
def treeNode (counter : Nat) (bytes : List UInt8) : Node :=
  if h : bytes.length ≤ 1024 then
    chunkNode counter.toUInt64 initial chunkStart bytes
  else
    let cut := leftLength bytes.length
    have _hpos := leftLength_pos bytes.length
    have _hlt := leftLength_lt (Nat.lt_of_not_le h)
    let left := (treeNode counter (bytes.take cut)).compress
    let right := (treeNode (counter + cut / 1024) (bytes.drop cut)).compress
    ⟨initial, (left ++ right : Vector UInt32 (8 + 8)), 0, 64, parent⟩
termination_by bytes.length
decreasing_by
  · rw [List.length_take]; omega
  · rw [List.length_drop]; omega

/-- The hash of an input as eight words. -/
def hash (bytes : List UInt8) : Chain :=
  let node := treeNode 0 bytes
  Node.compress ⟨node.chain, node.block, 0, node.length, node.flags ||| root⟩

/-- The two hexadecimal digits of a byte. -/
def hexByte (n : Nat) : List Char := [Nat.digitChar (n / 16 % 16), Nat.digitChar (n % 16)]

/-- The hexadecimal text of a hash; each word's lowest byte comes first. -/
def hexText (words : Chain) : String :=
  String.ofList <| words.toList.flatMap fun w =>
    (List.range 4).flatMap fun i => hexByte (w.toNat >>> (8 * i))

end EnsembleCompiler.Blake3

namespace EnsembleCompiler

/-- The fingerprint of a text: the hash of its bytes in hexadecimal. -/
def fingerprint (text : String) : String :=
  Blake3.hexText (Blake3.hash text.toUTF8.toList)

end EnsembleCompiler
