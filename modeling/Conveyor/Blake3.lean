/-!
# Conveyor.Blake3

The BLAKE3 hash of a byte string, in its plain (unkeyed) mode with 32 bytes of output.

* `compress`     — the compression function on sixteen words.
* `Node`         — the inputs of the last compression of a subtree, before it is known whether
                   the subtree is the whole message.
* `tree`         — the node of a message: one chunk, or a left part of the largest power of two
                   chunks that leaves something over, and the rest.
* `hash`, `hex`  — the digest of the root node.
-/

namespace Conveyor
namespace Blake3

abbrev Words (n : Nat) := Vector UInt32 n

def iv : Words 8 :=
  #v[0x6A09E667, 0xBB67AE85, 0x3C6EF372, 0xA54FF53A, 0x510E527F, 0x9B05688C, 0x1F83D9AB, 0x5BE0CD19]

def chunkStart : UInt32 := 1
def chunkEnd : UInt32 := 2
def parentFlag : UInt32 := 4
def rootFlag : UInt32 := 8

/-- Which word of the block comes to which place in the next round. -/
def permutation : Vector (Fin 16) 16 := #v[2, 6, 3, 10, 7, 0, 4, 13, 1, 11, 12, 5, 9, 14, 15, 8]

def rotateRight (x : UInt32) (n : UInt32) : UInt32 := (x >>> n) ||| (x <<< (32 - n))

/-- Mixes two words of the message into a column or a diagonal. -/
def mix (v : Words 16) (a b c d : Fin 16) (x y : UInt32) : Words 16 :=
  let va := v[a] + v[b] + x
  let vd := rotateRight (v[d] ^^^ va) 16
  let vc := v[c] + vd
  let vb := rotateRight (v[b] ^^^ vc) 12
  let va := va + vb + y
  let vd := rotateRight (vd ^^^ va) 8
  let vc := vc + vd
  let vb := rotateRight (vb ^^^ vc) 7
  (((v.set a va).set b vb).set c vc).set d vd

def mixAll (v m : Words 16) : Words 16 :=
  let v := mix v 0 4 8 12 m[0] m[1]
  let v := mix v 1 5 9 13 m[2] m[3]
  let v := mix v 2 6 10 14 m[4] m[5]
  let v := mix v 3 7 11 15 m[6] m[7]
  let v := mix v 0 5 10 15 m[8] m[9]
  let v := mix v 1 6 11 12 m[10] m[11]
  let v := mix v 2 7 8 13 m[12] m[13]
  mix v 3 4 9 14 m[14] m[15]

def permute (m : Words 16) : Words 16 := permutation.map fun i => m[i]

/-- Some rounds, the words of the block permuted between them. -/
def rounds : Nat → Words 16 → Words 16 → Words 16
  | 0, v, _ => v
  | n + 1, v, m => rounds n (mixAll v m) (permute m)

/-- The chaining value that a block leaves. -/
def compress (cv : Words 8) (block : Words 16) (counter : UInt64) (length flags : UInt32) :
    Words 8 :=
  let v : Words 16 := cv ++ (#v[iv[0], iv[1], iv[2], iv[3], counter.toUInt32,
    (counter >>> 32).toUInt32, length, flags] : Words 8)
  let v := rounds 7 v block
  Vector.ofFn fun i : Fin 8 => v[i.val] ^^^ v[i.val + 8]

def wordOfBytes : List UInt8 → UInt32
  | [] => 0
  | b :: rest => b.toUInt32 ||| (wordOfBytes rest <<< 8)

/-- A block of at most 64 bytes, filled up with zeros. -/
def blockOfBytes (bytes : List UInt8) : Words 16 :=
  Vector.ofFn fun i => wordOfBytes ((bytes.drop (4 * i.val)).take 4)

/-- The inputs of a compression. -/
structure Node where
  cv : Words 8
  block : Words 16
  counter : UInt64
  length : UInt32
  flags : UInt32

def Node.chaining (n : Node) : Words 8 := compress n.cv n.block n.counter n.length n.flags

/-- The first words of the digest, if the node is the whole message. -/
def Node.root (n : Node) : Words 8 :=
  compress n.cv n.block 0 n.length (n.flags ||| rootFlag)

/-- The blocks of a chunk, chained; `flags` marks the first one. -/
def chunkFrom (counter : UInt64) (cv : Words 8) (flags : UInt32) (bytes : List UInt8) : Node :=
  if _ : bytes.length ≤ 64 then
    { cv, block := blockOfBytes bytes, counter, length := UInt32.ofNat bytes.length,
      flags := flags ||| chunkEnd }
  else
    chunkFrom counter (compress cv (blockOfBytes (bytes.take 64)) counter 64 flags) 0
      (bytes.drop 64)
termination_by bytes.length
decreasing_by simp only [List.length_drop]; omega

def parent (left right : Words 8) : Node :=
  { cv := iv, block := left ++ right, counter := 0, length := 64, flags := parentFlag }

/-- The size of the left part of a message longer than a chunk. -/
def leftSize (size : Nat) : Nat := 1024 * Nat.pow 2 (Nat.log2 ((size - 1) / 1024))

theorem leftSize_pos (size : Nat) : 0 < leftSize size :=
  Nat.mul_pos (by decide) (Nat.pow_pos (by decide))

theorem leftSize_lt {size : Nat} (h : 1024 < size) : leftSize size < size := by
  have hne : (size - 1) / 1024 ≠ 0 := by omega
  have hlog : Nat.pow 2 (Nat.log2 ((size - 1) / 1024)) ≤ (size - 1) / 1024 :=
    Nat.log2_self_le hne
  simp only [leftSize]
  omega

/-- The node of a message that starts at the chunk of that number. -/
def tree (counter : UInt64) (bytes : List UInt8) : Node :=
  if _ : bytes.length ≤ 1024 then chunkFrom counter iv chunkStart bytes
  else
    let left := leftSize bytes.length
    parent (tree counter (bytes.take left)).chaining
      (tree (counter + UInt64.ofNat (left / 1024)) (bytes.drop left)).chaining
termination_by bytes.length
decreasing_by
  · have := @leftSize_lt bytes.length (by omega)
    simp only [List.length_take]; omega
  · have := leftSize_pos bytes.length
    simp only [List.length_drop]; omega

def bytesOfWord (w : UInt32) : List UInt8 :=
  [w.toUInt8, (w >>> 8).toUInt8, (w >>> 16).toUInt8, (w >>> 24).toUInt8]

def hash (bytes : List UInt8) : List UInt8 := (tree 0 bytes).root.toList.flatMap bytesOfWord

def hexDigit (n : Nat) : Char :=
  if n < 10 then Char.ofNat (48 + n) else Char.ofNat (87 + n)

def hex (bytes : List UInt8) : String :=
  String.ofList ((hash bytes).flatMap fun b => [hexDigit (b.toNat / 16), hexDigit (b.toNat % 16)])

end Blake3
end Conveyor
