import RecordSync.Value

/-!
# The BLAKE3 digest

Binary contents are found by their BLAKE3 digest, which this module computes for strings
of bytes of any length.

**Shape.**  The input is cut into chunks of 1024 bytes and these into blocks of 64.  A
block is mixed into the chaining value of its chunk.  The values of neighbouring chunks
are joined in pairs, level by level, an odd one moving up alone; the last join gives the
digest.
-/

namespace RecordSync
namespace Blake3

/-- Four words. -/
structure Row where
  a : UInt32
  b : UInt32
  c : UInt32
  d : UInt32
deriving DecidableEq, Repr

namespace Row

def zip (f : UInt32 → UInt32 → UInt32) (x y : Row) : Row :=
  ⟨f x.a y.a, f x.b y.b, f x.c y.c, f x.d y.d⟩

def shift (x : Row) : Row := ⟨x.b, x.c, x.d, x.a⟩

def toList (x : Row) : List UInt32 := [x.a, x.b, x.c, x.d]

end Row

/-- A chaining value: two rows of words. -/
structure Chain where
  first : Row
  second : Row
deriving DecidableEq, Repr

/-- The chaining value that a chunk starts with. -/
def initial : Chain :=
  ⟨⟨0x6a09e667, 0xbb67ae85, 0x3c6ef372, 0xa54ff53a⟩,
    ⟨0x510e527f, 0x9b05688c, 0x1f83d9ab, 0x5be0cd19⟩⟩

/-- Turns a word to the right. -/
def turn (n : UInt32) (x : UInt32) : UInt32 := (x >>> n) ||| (x <<< (32 - n))

structure State where
  first : Row
  second : Row
  third : Row
  fourth : Row

/-- Mixes message words into the four columns. -/
def State.mix (s : State) (x y : Row) : State :=
  let a := Row.zip (· + ·) (Row.zip (· + ·) s.first s.second) x
  let d := Row.zip (fun p q => turn 16 (p ^^^ q)) s.fourth a
  let c := Row.zip (· + ·) s.third d
  let b := Row.zip (fun p q => turn 12 (p ^^^ q)) s.second c
  let a := Row.zip (· + ·) (Row.zip (· + ·) a b) y
  let d := Row.zip (fun p q => turn 8 (p ^^^ q)) d a
  let c := Row.zip (· + ·) c d
  let b := Row.zip (fun p q => turn 7 (p ^^^ q)) b c
  ⟨a, b, c, d⟩

def word (block : List UInt32) (i : Nat) : UInt32 := block.getD i 0

/-- One round: the columns are mixed, then the diagonals. -/
def State.round (s : State) (m : List UInt32) : State :=
  let w := word m
  let s := s.mix ⟨w 0, w 2, w 4, w 6⟩ ⟨w 1, w 3, w 5, w 7⟩
  let s := State.mk s.first s.second.shift s.third.shift.shift s.fourth.shift.shift.shift
  let s := s.mix ⟨w 8, w 10, w 12, w 14⟩ ⟨w 9, w 11, w 13, w 15⟩
  ⟨s.first, s.second.shift.shift.shift, s.third.shift.shift, s.fourth.shift⟩

/-- The order in which the words of a block are taken in the next round. -/
def reorder (m : List UInt32) : List UInt32 :=
  [2, 6, 3, 10, 7, 0, 4, 13, 1, 11, 12, 5, 9, 14, 15, 8].map (word m)

def State.rounds : Nat → State → List UInt32 → State
  | 0, s, _ => s
  | n + 1, s, m => State.rounds n (s.round m) (reorder m)

/-- Mixes a block of words into a chaining value.  `counter` is the number of the chunk,
`size` the number of bytes in the block. -/
def compress (chain : Chain) (block : List UInt32) (counter : Nat) (size flags : UInt32) :
    Chain :=
  let start : State := ⟨chain.first, chain.second, initial.first,
    ⟨UInt32.ofNat counter, UInt32.ofNat (counter / 4294967296), size, flags⟩⟩
  let mixed := start.rounds 7 block
  ⟨Row.zip (· ^^^ ·) mixed.first mixed.third, Row.zip (· ^^^ ·) mixed.second mixed.fourth⟩

def chunkStart : UInt32 := 1

def chunkEnd : UInt32 := 2

/-- The flag of a join. -/
def parent : UInt32 := 4

/-- The flag of the last step. -/
def root : UInt32 := 8

/-- The words of a string of bytes, the lowest byte of each first. -/
def words : Bytes → List UInt32
  | a :: b :: c :: d :: rest =>
    (a.toUInt32 ||| (b.toUInt32 <<< 8) ||| (c.toUInt32 <<< 16) ||| (d.toUInt32 <<< 24)) ::
      words rest
  | [a, b, c] => [a.toUInt32 ||| (b.toUInt32 <<< 8) ||| (c.toUInt32 <<< 16)]
  | [a, b] => [a.toUInt32 ||| (b.toUInt32 <<< 8)]
  | [a] => [a.toUInt32]
  | [] => []

/-- Cuts a list into pieces of a positive length; the list has at most `count` pieces. -/
def pieces {α : Type} (size : Nat) : Nat → List α → List (List α)
  | 0, _ => []
  | count + 1, l =>
    if l.length ≤ size then [l] else l.take size :: pieces size count (l.drop size)

/-- Mixes the blocks of a chunk, with the flag that the first is to have; `last` are the
further flags of the last block. -/
def chunkBlocks (counter : Nat) (last : UInt32) : UInt32 → Chain → List Bytes → Chain
  | _, chain, [] => chain
  | flags, chain, [block] =>
    compress chain (words block) counter (UInt32.ofNat block.length)
      (flags ||| chunkEnd ||| last)
  | flags, chain, block :: rest =>
    chunkBlocks counter last 0
      (compress chain (words block) counter (UInt32.ofNat block.length) flags) rest

/-- The chaining value of a chunk; `last` are the further flags of its last block. -/
def chunk (last : UInt32) (counter : Nat) (bytes : Bytes) : Chain :=
  chunkBlocks counter last chunkStart initial (pieces 64 16 bytes)

def join (flags : UInt32) (left right : Chain) : Chain :=
  let block := left.first.toList ++ left.second.toList ++
    (right.first.toList ++ right.second.toList)
  compress initial block 0 64 (parent ||| flags)

/-- Joins neighbours; an odd last one stays. -/
def joinPairs : List Chain → List Chain
  | left :: right :: rest => join 0 left right :: joinPairs rest
  | rest => rest

/-- Joins the values of several chunks, level by level. -/
def joinAll : Nat → List Chain → Chain
  | _, [left, right] => join root left right
  | levels + 1, chains => joinAll levels (joinPairs chains)
  | 0, _ => initial

def wordBytes (x : UInt32) : Bytes :=
  [x.toUInt8, (x >>> 8).toUInt8, (x >>> 16).toUInt8, (x >>> 24).toUInt8]

/-- The digest of a string of bytes: 32 bytes. -/
def digest (input : Bytes) : Bytes :=
  let chunks := pieces 1024 (input.length / 1024 + 1) input
  let last := match chunks with
    | [only] => chunk root 0 only
    | _ => joinAll chunks.length (chunks.zipIdx.map (fun (bytes, i) => chunk 0 i bytes))
  (last.first.toList ++ last.second.toList).flatMap wordBytes

end Blake3
end RecordSync
