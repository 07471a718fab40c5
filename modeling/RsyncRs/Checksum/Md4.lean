import RsyncRs.Bytes

/-!
# Classic MD4

The digest of protocols before 27, with a bit count of 32 bits, and with no padding at all
when the data fill their last block.
-/

/-- A choice between `y` and `z`, bit by bit. -/
def md4F (x y z : UInt32) : UInt32 :=
  (x &&& y) ||| (~~~x &&& z)

/-- The majority of three words, bit by bit. -/
def md4G (x y z : UInt32) : UInt32 :=
  (x &&& y) ||| (x &&& z) ||| (y &&& z)

/-- The parity of three words, bit by bit. -/
def md4H (x y z : UInt32) : UInt32 :=
  x ^^^ y ^^^ z

/-- The word `x` rotated by `s` bits to the left. -/
def rotateLeft (x : UInt32) (s : UInt32) : UInt32 :=
  (x <<< s) ||| (x >>> (32 - s))

/-- State of the digest. -/
structure Md4State where
  a : UInt32 := 0x67452301
  b : UInt32 := 0xefcdab89
  c : UInt32 := 0x98badcfe
  d : UInt32 := 0x10325476
  /-- Number of bits so far, lower word. -/
  totalN : UInt32 := 0
  /-- Number of bits so far, upper word. -/
  totalN2 : UInt32 := 0
deriving DecidableEq, Repr

/-- The message words and the rotations of the first round. -/
def md4Round1 : List (ℕ × UInt32) :=
  [(0, 3), (1, 7), (2, 11), (3, 19), (4, 3), (5, 7), (6, 11), (7, 19),
   (8, 3), (9, 7), (10, 11), (11, 19), (12, 3), (13, 7), (14, 11), (15, 19)]

/-- The message words and the rotations of the second round. -/
def md4Round2 : List (ℕ × UInt32) :=
  [(0, 3), (4, 5), (8, 9), (12, 13), (1, 3), (5, 5), (9, 9), (13, 13),
   (2, 3), (6, 5), (10, 9), (14, 13), (3, 3), (7, 5), (11, 9), (15, 13)]

/-- The message words and the rotations of the third round. -/
def md4Round3 : List (ℕ × UInt32) :=
  [(0, 3), (8, 9), (4, 11), (12, 15), (2, 3), (10, 9), (6, 11), (14, 15),
   (1, 3), (9, 9), (5, 11), (13, 15), (3, 3), (11, 9), (7, 11), (15, 15)]

/-- Four words of the state. -/
abbrev Md4Words := UInt32 × UInt32 × UInt32 × UInt32

/-- One step of a round. The words are rotated after it, so that the next step updates the
word before the one updated by this step. -/
def md4Step (m : List UInt32) (f : UInt32 → UInt32 → UInt32 → UInt32) (const : UInt32)
    (w : Md4Words) (ks : ℕ × UInt32) : Md4Words :=
  let (a, b, c, d) := w
  (d, rotateLeft (a + f b c d + m.getD ks.1 0 + const) ks.2, b, c)

/-- The sixteen words of a block. -/
def md4Message : ℕ → List UInt8 → List UInt32
  | 0, _ => []
  | n + 1, block => UInt32.ofNat (ofLeBytes (block.take 4)) :: md4Message n (block.drop 4)

namespace Md4State

/-- Compress one block into the state. -/
def compress (s : Md4State) (block : List UInt8) : Md4State :=
  let m := md4Message 16 block
  let w₁ := md4Round1.foldl (md4Step m md4F 0) (s.a, s.b, s.c, s.d)
  let w₂ := md4Round2.foldl (md4Step m md4G 0x5A827999) w₁
  let (a, b, c, d) := md4Round3.foldl (md4Step m md4H 0x6ED9EBA1) w₂
  { s with a := a + s.a, b := b + s.b, c := c + s.c, d := d + s.d }

/-- Compress one block and count its bits. -/
def updateBlock (s : Md4State) (block : List UInt8) : Md4State :=
  let s := s.compress block
  let newN := s.totalN + 512
  { s with
    totalN2 := if newN < 512 then s.totalN2 + 1 else s.totalN2
    totalN := newN }

/-- The bytes of the four words. -/
def resultRaw (s : Md4State) : List UInt8 :=
  leBytes 4 s.a.toNat ++ leBytes 4 s.b.toNat ++ leBytes 4 s.c.toNat ++ leBytes 4 s.d.toNat

/-- The digest after the bytes of the last block, which is padded. -/
def finalizeTail (s : Md4State) (remaining : List UInt8) (use64bitCount : Bool) :
    List UInt8 :=
  let length := UInt32.ofNat remaining.length
  let bits := length <<< 3
  let newN := s.totalN + bits
  let n2 := (if newN < bits then s.totalN2 + 1 else s.totalN2) + (length >>> 29)
  let s := { s with totalN := newN, totalN2 := n2 }
  let count := leBytes 4 newN.toNat ++ if use64bitCount then leBytes 4 n2.toNat else [0, 0, 0, 0]
  let padded := remaining ++ [0x80]
  if remaining.length ≤ 55 then
    (s.compress (padded ++ List.replicate (56 - padded.length) 0 ++ count)).resultRaw
  else
    let buf := padded ++ List.replicate (120 - padded.length) 0 ++ count
    ((s.compress (buf.take 64)).compress (buf.drop 64)).resultRaw

/-- The state after the full blocks at the head of the data, and the bytes left. -/
def updateBlocks (s : Md4State) (data : List UInt8) : Md4State × List UInt8 :=
  if 64 ≤ data.length then
    updateBlocks (s.updateBlock (data.take 64)) (data.drop 64)
  else
    (s, data)
termination_by data.length
decreasing_by
  rw [List.length_drop]
  omega

theorem length_resultRaw
    (s : Md4State) :
  s.resultRaw.length = 16
  := by
  simp [resultRaw]

end Md4State

/-- The digest of protocols before 27. -/
def md4Classic (dataWithSeed : List UInt8) : List UInt8 :=
  let (state, remainder) := Md4State.updateBlocks {} dataWithSeed
  if remainder = [] then
    state.resultRaw
  else
    state.finalizeTail remainder false

theorem length_md4Classic
    (data : List UInt8) :
  (md4Classic data).length = 16
  := by
  unfold md4Classic
  dsimp only
  split
  · apply Md4State.length_resultRaw
  · unfold Md4State.finalizeTail
    dsimp only
    split
    · apply Md4State.length_resultRaw
    · apply Md4State.length_resultRaw
