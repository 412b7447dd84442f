import OnionTunnel.Bytes

/-!
# The AES block function

Keys of 16, 24 and 32 bytes give 10, 12 and 14 rounds on blocks of four columns of four bytes.
Only the forward direction is needed: a cipher with feedback uses it both ways.

## Implementation notes

The substitution is computed from its definition, the affine image of the inverse in the field
of 256 elements. One round of a column looks up `mixed`, the substitution of a byte times the
column (2, 1, 1, 3), and turns it by one byte per row.
-/

namespace OnionTunnel.Aes

/-- The length of a block. -/
def blockLength : Nat := 16

/-- Twice an element of the field. -/
def double (x : UInt8) : UInt8 :=
  (x <<< 1) ^^^ (if x &&& 0x80 = 0 then 0 else 0x1b)

/-- The product of field elements, by the lowest `n` bits of the second. -/
def times : Nat → UInt8 → UInt8 → UInt8
  | 0, _, _ => 0
  | n + 1, x, y => (if y &&& 1 = 0 then 0 else x) ^^^ times n (double x) (y >>> 1)

/-- The product of field elements. -/
def mul (x y : UInt8) : UInt8 := times 8 x y

/-- A power of a field element. -/
def power (x : UInt8) : Nat → UInt8
  | 0 => 1
  | n + 1 => mul x (power x n)

/-- A byte turned left. -/
def turnLeft (x n : UInt8) : UInt8 :=
  (x <<< n) ||| (x >>> (8 - n))

/-- The substitution of a byte, from its definition. -/
def substitute (x : UInt8) : UInt8 :=
  let i := power x 254
  i ^^^ turnLeft i 1 ^^^ turnLeft i 2 ^^^ turnLeft i 3 ^^^ turnLeft i 4 ^^^ 0x63

/-- The substitution of every byte. -/
def substitutions : Array UInt8 :=
  (Array.range 256).map fun i => substitute (UInt8.ofNat i)

/-- A word from four bytes, the first on top. -/
def column (a b c d : UInt8) : UInt32 :=
  (a.toUInt32 <<< 24) ||| (b.toUInt32 <<< 16) ||| (c.toUInt32 <<< 8) ||| d.toUInt32

/-- The substitution of every byte, times the first column of the mixing matrix. -/
def mixed : Array UInt32 :=
  substitutions.map fun s => column (double s) s s (double s ^^^ s)

/-- The byte of a column in a row. -/
def row (w : UInt32) (i : Nat) : UInt8 :=
  (w >>> UInt32.ofNat (24 - 8 * i)).toUInt8

/-- The table entry of a byte. -/
def substituted (x : UInt8) : UInt8 := substitutions.getD x.toNat 0

/-- The table entry of the lowest byte of a word. -/
def mixedByte (w : UInt32) : UInt32 := mixed.getD (w &&& 0xff).toNat 0

/-- A word turned right. -/
def turnRight (x n : UInt32) : UInt32 :=
  (x >>> n) ||| (x <<< (32 - n))

/-- The substitution of each byte of a word. -/
def substituteWord (w : UInt32) : UInt32 :=
  column (substituted (row w 0)) (substituted (row w 1)) (substituted (row w 2))
    (substituted (row w 3))

/-- The round keys of a key, four words a round. -/
structure Schedule where
  words : Array UInt32
  rounds : Nat

/-- The words of a byte string of whole words. -/
def columns : Bytes → List UInt32
  | a :: b :: c :: d :: rest => column a b c d :: columns rest
  | _ => []

/-- Extends the words of a key of `length` words by `n` words; `constant` is the next round
constant. -/
def expand (length : Nat) : Nat → UInt8 → Array UInt32 → Array UInt32
  | 0, _, w => w
  | n + 1, constant, w =>
    let i := w.size
    let previous := w.getD (i - 1) 0
    let earlier := w.getD (i - length) 0
    if i % length = 0 then
      let turned := substituteWord (turnRight previous 24)
      expand length n (double constant) (w.push (earlier ^^^ turned ^^^ column constant 0 0 0))
    else if 6 < length ∧ i % length = 4 then
      expand length n constant (w.push (earlier ^^^ substituteWord previous))
    else expand length n constant (w.push (earlier ^^^ previous))

/-- Whether a key has a length that the cipher takes. -/
def validLength (n : Nat) : Bool :=
  n = 16 ∨ n = 24 ∨ n = 32

/-- The round keys of a key of valid length. -/
def schedule (key : Bytes) : Schedule :=
  let words := (columns key).toArray
  let rounds := words.size + 6
  ⟨expand words.size (4 * (rounds + 1) - words.size) 1 words, rounds⟩

/-- A block in four columns. -/
structure Block where
  a : UInt32
  b : UInt32
  c : UInt32
  d : UInt32

/-- A block with the key of a round added. -/
def Block.addKey (x : Block) (s : Schedule) (round : Nat) : Block :=
  let i := 4 * round
  ⟨x.a ^^^ s.words.getD i 0, x.b ^^^ s.words.getD (i + 1) 0,
    x.c ^^^ s.words.getD (i + 2) 0, x.d ^^^ s.words.getD (i + 3) 0⟩

/-- A column of a middle round: the bytes of four columns, one from each row. -/
def mixColumn (a b c d : UInt32) : UInt32 :=
  mixedByte (a >>> 24) ^^^ turnRight (mixedByte (b >>> 16)) 8 ^^^
    turnRight (mixedByte (c >>> 8)) 16 ^^^ turnRight (mixedByte d) 24

/-- A column of the last round, which does not mix. -/
def lastColumn (a b c d : UInt32) : UInt32 :=
  column (substituted (row a 0)) (substituted (row b 1)) (substituted (row c 2))
    (substituted (row d 3))

/-- The middle rounds, from a round on. -/
def middle (s : Schedule) : Nat → Nat → Block → Block
  | 0, _, x => x
  | n + 1, round, x =>
    middle s n (round + 1)
      (Block.addKey ⟨mixColumn x.a x.b x.c x.d, mixColumn x.b x.c x.d x.a,
        mixColumn x.c x.d x.a x.b, mixColumn x.d x.a x.b x.c⟩ s round)

/-- The image of a block. -/
def encryptBlock (s : Schedule) (x : Block) : Block :=
  let x := middle s (s.rounds - 1) 1 (x.addKey s 0)
  Block.addKey ⟨lastColumn x.a x.b x.c x.d, lastColumn x.b x.c x.d x.a,
    lastColumn x.c x.d x.a x.b, lastColumn x.d x.a x.b x.c⟩ s s.rounds

/-- The four bytes of a column. -/
def columnBytes (w : UInt32) : Bytes :=
  [row w 0, row w 1, row w 2, row w 3]

/-- The bytes of a block. -/
def Block.bytes (x : Block) : Bytes :=
  columnBytes x.a ++ columnBytes x.b ++ columnBytes x.c ++ columnBytes x.d

/-- The block of sixteen bytes; missing columns are zero. -/
def Block.ofBytes (b : Bytes) : Block :=
  match columns b with
  | a :: b :: c :: d :: _ => ⟨a, b, c, d⟩
  | _ => ⟨0, 0, 0, 0⟩

/-- The block function of a key. -/
def blockFunction (s : Schedule) (b : Bytes) : Bytes :=
  (encryptBlock s (Block.ofBytes b)).bytes

/-- Every image is a block. -/
@[simp] theorem length_blockFunction (s : Schedule) (b : Bytes) :
    (blockFunction s b).length = blockLength := by
  simp [blockFunction, Block.bytes, columnBytes, blockLength]

end OnionTunnel.Aes
