import AppBundle.Text.Number

/-!
# BLAKE3 digests

The hash function BLAKE3 with outputs of 32 bytes. The input is cut into chunks
of 1024 bytes, each chunk is compressed block by block, and the chunks are
combined in a binary tree. The main statement is that a digest has 64 digits.
-/

namespace AppBundle.Blake3

/-- One row of the four by four words of a state. -/
structure Row where
  w0 : UInt32
  w1 : UInt32
  w2 : UInt32
  w3 : UInt32
  deriving DecidableEq, Inhabited

namespace Row

/-- Combines two rows word by word. -/
@[inline] def zip (f : UInt32 → UInt32 → UInt32) (x y : Row) : Row :=
  ⟨f x.w0 y.w0, f x.w1 y.w1, f x.w2 y.w2, f x.w3 y.w3⟩

/-- Changes every word of a row. -/
@[inline] def map (f : UInt32 → UInt32) (x : Row) : Row := ⟨f x.w0, f x.w1, f x.w2, f x.w3⟩

/-- The sum modulo 2^32 in each word. -/
def add (x y : Row) : Row := zip (· + ·) x y

/-- The exclusive or in each word. -/
def xor (x y : Row) : Row := zip (· ^^^ ·) x y

/-- Every word turned to the right by some of its 32 bits. -/
def turnRight (n : UInt32) (x : Row) : Row := x.map fun w => (w >>> n) ||| (w <<< (32 - n))

/-- The words moved one place to the left, the first one to the end. -/
def shift (x : Row) : Row := ⟨x.w1, x.w2, x.w3, x.w0⟩

/-- The words of the row. -/
def words (x : Row) : List UInt32 := [x.w0, x.w1, x.w2, x.w3]

end Row

/-- Eight words that carry a computation from one block to the next. -/
structure Chain where
  low : Row
  high : Row
  deriving DecidableEq, Inhabited

/-- The words of a chain value. -/
def Chain.words (c : Chain) : List UInt32 := c.low.words ++ c.high.words

/-- The chain value that every computation starts from. -/
def start : Chain :=
  ⟨⟨0x6A09E667, 0xBB67AE85, 0x3C6EF372, 0xA54FF53A⟩,
    ⟨0x510E527F, 0x9B05688C, 0x1F83D9AB, 0x5BE0CD19⟩⟩

/-- The four rows of words that a compression works on. -/
structure State where
  a : Row
  b : Row
  c : Row
  d : Row
  deriving Inhabited

/-- Mixes two words of the message into each column of the state. -/
def State.mix (s : State) (x y : Row) : State :=
  let a := (s.a.add s.b).add x
  let d := (s.d.xor a).turnRight 16
  let c := s.c.add d
  let b := (s.b.xor c).turnRight 12
  let a := (a.add b).add y
  let d := (d.xor a).turnRight 8
  let c := c.add d
  let b := (b.xor c).turnRight 7
  ⟨a, b, c, d⟩

/-- Turns the diagonals of the state into its columns. -/
def State.diagonals (s : State) : State := ⟨s.a, s.b.shift, s.c.shift.shift, s.d.shift.shift.shift⟩

/-- Turns the columns of the state back into its diagonals. -/
def State.columns (s : State) : State := ⟨s.a, s.b.shift.shift.shift, s.c.shift.shift, s.d.shift⟩

/-- The sixteen words of a block. -/
structure Message where
  r0 : Row
  r1 : Row
  r2 : Row
  r3 : Row
  deriving Inhabited

/-- The order of the words for the next round. -/
def Message.permute (m : Message) : Message :=
  ⟨⟨m.r0.w2, m.r1.w2, m.r0.w3, m.r2.w2⟩, ⟨m.r1.w3, m.r0.w0, m.r1.w0, m.r3.w1⟩,
    ⟨m.r0.w1, m.r2.w3, m.r3.w0, m.r1.w1⟩, ⟨m.r2.w1, m.r3.w2, m.r3.w3, m.r2.w0⟩⟩

/-- One round: the columns, then the diagonals. -/
def State.round (s : State) (m : Message) : State :=
  let s := s.mix ⟨m.r0.w0, m.r0.w2, m.r1.w0, m.r1.w2⟩ ⟨m.r0.w1, m.r0.w3, m.r1.w1, m.r1.w3⟩
  (s.diagonals.mix ⟨m.r2.w0, m.r2.w2, m.r3.w0, m.r3.w2⟩
    ⟨m.r2.w1, m.r2.w3, m.r3.w1, m.r3.w3⟩).columns

/-- Some rounds, each with the words in a new order. -/
def State.rounds : Nat → State → Message → State
  | 0, s, _ => s
  | n + 1, s, m => State.rounds n (s.round m) m.permute

/-- A block that is still to be compressed. -/
structure Pending where
  /-- The chain value before the block. -/
  chain : Chain
  /-- The words of the block. -/
  message : Message
  /-- The number of the chunk. -/
  counter : Nat
  /-- The number of bytes in the block. -/
  length : Nat
  /-- The role of the block. -/
  flags : UInt32
  deriving Inhabited

/-- The first block of a chunk. -/
def chunkStart : UInt32 := 1
/-- The last block of a chunk. -/
def chunkEnd : UInt32 := 2
/-- A block made of two chain values. -/
def parentFlag : UInt32 := 4
/-- The block whose compression is the digest. -/
def rootFlag : UInt32 := 8

/-- Compresses a block, with further flags. -/
def Pending.compress (p : Pending) (more : UInt32) : Chain :=
  let s := State.rounds 7
    ⟨p.chain.low, p.chain.high, start.low,
      ⟨UInt32.ofNat p.counter, UInt32.ofNat (p.counter / Nat.pow 2 32), UInt32.ofNat p.length,
        p.flags ||| more⟩⟩ p.message
  ⟨s.a.xor s.c, s.b.xor s.d⟩

/-- The byte at a place, zero behind the end. -/
def byteAt (bytes : ByteArray) (i : Nat) : UInt32 :=
  if h : i < bytes.size then bytes[i].toUInt32 else 0

/-- The word at a place, its lowest byte first. -/
def wordAt (bytes : ByteArray) (i : Nat) : UInt32 :=
  byteAt bytes i ||| (byteAt bytes (i + 1) <<< 8) ||| (byteAt bytes (i + 2) <<< 16) |||
    (byteAt bytes (i + 3) <<< 24)

/-- The four words at a place. -/
def rowAt (bytes : ByteArray) (i : Nat) : Row :=
  ⟨wordAt bytes i, wordAt bytes (i + 4), wordAt bytes (i + 8), wordAt bytes (i + 12)⟩

/-- The sixteen words at a place. -/
def messageAt (bytes : ByteArray) (i : Nat) : Message :=
  ⟨rowAt bytes i, rowAt bytes (i + 16), rowAt bytes (i + 32), rowAt bytes (i + 48)⟩

/-- Compresses the blocks of a chunk but the last one, which is left pending.
There are `more` blocks after the one at `offset`. -/
def chunkFrom (bytes : ByteArray) (counter : Nat) :
    (more offset : Nat) → (chain : Chain) → (flags : UInt32) → Pending
  | 0, offset, chain, flags =>
    { chain, message := messageAt bytes offset, counter, length := bytes.size - offset,
      flags := flags ||| chunkEnd }
  | more + 1, offset, chain, flags =>
    let block : Pending :=
      { chain, message := messageAt bytes offset, counter, length := 64, flags }
    chunkFrom bytes counter more (offset + 64) (block.compress 0) 0

/-- The pending block of one chunk of at most 1024 bytes. -/
def chunk (bytes : ByteArray) (counter : Nat) : Pending :=
  chunkFrom bytes counter ((bytes.size - 1) / 64) 0 start chunkStart

/-- The pending block that combines two others. -/
def parent (left right : Pending) : Pending :=
  let l := left.compress 0
  let r := right.compress 0
  { chain := start, message := ⟨l.low, l.high, r.low, r.high⟩, counter := 0, length := 64,
    flags := parentFlag }

/-- One level of the tree: neighbours are combined, a last one without a
neighbour stays. -/
def combineNeighbours : List Pending → List Pending
  | left :: right :: rest => parent left right :: combineNeighbours rest
  | rest => rest

/-- The top of the tree after some levels. -/
def top : (levels : Nat) → List Pending → Pending
  | 0, nodes => nodes.headD default
  | levels + 1, nodes => top levels (combineNeighbours nodes)

/-- The number of chunks, at least one. -/
def chunkCount (size : Nat) : Nat := (size - 1) / 1024 + 1

/-- The words of the digest. -/
def digest (bytes : ByteArray) : Chain :=
  let count := chunkCount bytes.size
  let chunks := (List.range count).map fun i =>
    chunk (bytes.extract (1024 * i) (1024 * (i + 1))) i
  (top (count - 1).log2.succ chunks).compress rootFlag

/-- The two digits of a byte. -/
def hexByte (b : UInt8) : List Char :=
  [Text.hexDigit (b.toNat / 16), Text.hexDigit (b.toNat % 16)]

/-- The four bytes of a word, the lowest first. -/
def wordBytes (w : UInt32) : List UInt8 :=
  [w.toUInt8, (w >>> 8).toUInt8, (w >>> 16).toUInt8, (w >>> 24).toUInt8]

/-- The digest as 64 hexadecimal digits. -/
def hex (bytes : ByteArray) : String :=
  String.ofList (((digest bytes).words.flatMap wordBytes).flatMap hexByte)

/-- A digest has 64 digits. -/
theorem length_hex (bytes : ByteArray) : (hex bytes).toList.length = 64 := by
  simp [hex, Chain.words, Row.words, wordBytes, hexByte]

end AppBundle.Blake3
