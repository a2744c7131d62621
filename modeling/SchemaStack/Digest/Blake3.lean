/-!
# BLAKE3

The hash of a byte sequence as a tree: chunks of 1024 bytes are the leaves, and the left subtree
of every parent holds the greatest power of two of chunks that leaves something for the right.
Only the 32 bytes of the ordinary digest are computed.
-/

namespace SchemaStack.Blake3

def initialWords : Vector UInt32 8 :=
  #v[0x6A09E667, 0xBB67AE85, 0x3C6EF372, 0xA54FF53A, 0x510E527F, 0x9B05688C, 0x1F83D9AB,
     0x5BE0CD19]

/-- Where each message word of the next round comes from. -/
def wordOrder : Vector (Fin 16) 16 := #v[2, 6, 3, 10, 7, 0, 4, 13, 1, 11, 12, 5, 9, 14, 15, 8]

def chunkStart : UInt32 := 1
def chunkEnd : UInt32 := 2
def parentFlag : UInt32 := 4
def rootFlag : UInt32 := 8

def rotateRight (x n : UInt32) : UInt32 := (x >>> n) ||| (x <<< (32 - n))

abbrev State := Vector UInt32 16

/-- Mixes two message words into a column or a diagonal. -/
def mix (s : State) (a b c d : Fin 16) (x y : UInt32) : State :=
  let s := s.set a (s[a] + s[b] + x)
  let s := s.set d (rotateRight (s[d] ^^^ s[a]) 16)
  let s := s.set c (s[c] + s[d])
  let s := s.set b (rotateRight (s[b] ^^^ s[c]) 12)
  let s := s.set a (s[a] + s[b] + y)
  let s := s.set d (rotateRight (s[d] ^^^ s[a]) 8)
  let s := s.set c (s[c] + s[d])
  s.set b (rotateRight (s[b] ^^^ s[c]) 7)

def round (s m : State) : State :=
  let s := mix s 0 4 8 12 m[0] m[1]
  let s := mix s 1 5 9 13 m[2] m[3]
  let s := mix s 2 6 10 14 m[4] m[5]
  let s := mix s 3 7 11 15 m[6] m[7]
  let s := mix s 0 5 10 15 m[8] m[9]
  let s := mix s 1 6 11 12 m[10] m[11]
  let s := mix s 2 7 8 13 m[12] m[13]
  mix s 3 4 9 14 m[14] m[15]

def reorder (m : State) : State := Vector.ofFn fun i => m[wordOrder[i]]

def rounds : (count : Nat) → (s m : State) → State
  | 0, s, _ => s
  | 1, s, m => round s m
  | count + 1, s, m => rounds count (round s m) (reorder m)

/-- The input of one compression. -/
structure Node where
  chaining : Vector UInt32 8
  block : State
  counter : UInt64
  length : UInt32
  flags : UInt32

def Node.compress (n : Node) : Vector UInt32 8 :=
  let v := n.chaining
  let w := initialWords
  let s := rounds 7 #v[v[0], v[1], v[2], v[3], v[4], v[5], v[6], v[7], w[0], w[1], w[2], w[3],
    n.counter.toUInt32, (n.counter >>> 32).toUInt32, n.length, n.flags] n.block
  #v[s[0] ^^^ s[8], s[1] ^^^ s[9], s[2] ^^^ s[10], s[3] ^^^ s[11], s[4] ^^^ s[12],
     s[5] ^^^ s[13], s[6] ^^^ s[14], s[7] ^^^ s[15]]

/-- Four bytes, least significant first. -/
def wordOf (bytes : Array UInt8) (i : Nat) : UInt32 :=
  let byte (j : Nat) : UInt32 := (bytes.getD (4 * i + j) 0).toUInt32
  byte 0 ||| (byte 1 <<< 8) ||| (byte 2 <<< 16) ||| (byte 3 <<< 24)

/-- A block of at most 64 bytes, filled up with zeros. -/
def blockOf (bytes : List UInt8) : State :=
  let a := bytes.toArray
  Vector.ofFn fun i : Fin 16 => wordOf a i

/-- The node of a chunk whose earlier blocks left the given chaining value. -/
def chunkNode (counter : UInt64) (chaining : Vector UInt32 8) (flags : UInt32)
    (bytes : List UInt8) : Node :=
  if bytes.length ≤ 64 then
    ⟨chaining, blockOf bytes, counter, bytes.length.toUInt32, flags ||| chunkEnd⟩
  else
    let next := (Node.mk chaining (blockOf (bytes.take 64)) counter 64 flags).compress
    chunkNode counter next 0 (bytes.drop 64)
termination_by bytes.length
decreasing_by simp only [List.length_drop]; omega

/-- The bytes of the left subtree of more than 1024 bytes: the greatest power of two below. -/
def leftSize (n : Nat) : Nat := Nat.pow 2 (n - 1).log2

theorem leftSize_pos (n : Nat) : 0 < leftSize n := Nat.two_pow_pos _

theorem leftSize_lt {n : Nat} (h : 1 < n) : leftSize n < n := by
  have hle : leftSize n ≤ n - 1 := Nat.log2_self_le (by omega)
  omega

/-- The root node of a sequence whose first chunk has the given number. -/
def treeNode (counter : Nat) (bytes : List UInt8) : Node :=
  if _h : bytes.length ≤ 1024 then
    chunkNode counter.toUInt64 initialWords chunkStart bytes
  else
    let n := leftSize bytes.length
    let l := (treeNode counter (bytes.take n)).compress
    let r := (treeNode (counter + n / 1024) (bytes.drop n)).compress
    ⟨initialWords, l ++ r, 0, 64, parentFlag⟩
termination_by bytes.length
decreasing_by
  · have := leftSize_lt (n := bytes.length) (by omega)
    simp only [List.length_take]
    omega
  · have := leftSize_pos bytes.length
    simp only [List.length_drop]
    omega

/-- The digest as eight words. -/
def digest (bytes : List UInt8) : Vector UInt32 8 :=
  let root := treeNode 0 bytes
  { root with counter := 0, flags := root.flags ||| rootFlag }.compress

def hexByte (n : Nat) : List Char := [Nat.digitChar (n / 16), Nat.digitChar (n % 16)]

/-- The bytes of a word in digest order, least significant first. -/
def hexWord (w : UInt32) : List Char :=
  let n := w.toNat
  hexByte (n % 256) ++ hexByte (n / 256 % 256) ++ hexByte (n / 65536 % 256) ++
    hexByte (n / 16777216)

def hex (bytes : List UInt8) : String := String.ofList ((digest bytes).toList.flatMap hexWord)

end SchemaStack.Blake3
