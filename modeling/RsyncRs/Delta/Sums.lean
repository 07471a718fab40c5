import RsyncRs.Checksum.Rolling
import RsyncRs.Checksum.Strong
import RsyncRs.Io.Varint

/-!
# Checksums of the blocks of a file

The layout of a file in blocks, the checksums of the blocks, and their form on the wire.
-/

variable {X : Type} {Reply : X → Type} {H : Type}
  {answer : H → (x : X) → Option (Reply x × H)}

/-! ### Block layout -/

/-- Block length of a file. -/
def blockLenForFile (fileSize : ℤ) : ℤ :=
  min (max blockSize (fileSize.tdiv 10000)) maxBlockSize

/-- Number of blocks of a file. -/
def sumCountForFile (fileSize blength : ℤ) : ℤ :=
  if blength ≤ 0 ∨ fileSize ≤ 0 then 0
  else wrapI32 ((wrapI64 (fileSize + blength - 1)).tdiv blength)

/-- Length of the last block when it is shorter than the others, otherwise zero. -/
def remainderForFile (fileSize blength : ℤ) : ℤ :=
  if blength ≤ 0 ∨ fileSize ≤ 0 then 0 else wrapI32 (fileSize.tmod blength)

/-- The head for a file, with strong checksums of `sumLen` bytes. -/
def makeSumHead (fileSize sumLen : ℤ) : SumHead :=
  let blength := blockLenForFile fileSize
  { count := sumCountForFile fileSize blength
    blength := blength
    s2length := sumLen
    remainder := remainderForFile fileSize blength }

/-! ### Memory -/

/-- Reserve room for `n` elements of `size` bytes. More bytes than the address space has are a
panic; otherwise there is room. -/
def reserve (size n : ℕ) : Except Error Unit :=
  if 9223372036854775808 ≤ size * n then throw (.panic "capacity overflow") else pure ()

/-- Number of bytes that the checksums of a block take in a list of them. -/
def sumBufSize : ℕ := 48

/-- The bytes from `start` up to `stop`. A range that leaves the data is a panic. -/
def slice (data : List UInt8) (start stop : ℕ) : Except Error (List UInt8) :=
  if stop < start ∨ data.length < stop then
    throw (.panic "slice index out of range")
  else
    pure ((data.drop start).take (stop - start))

/-- The 64-bit product of two lengths. -/
def mulUsize (a b : ℕ) : ℕ :=
  a * b % 18446744073709551616

/-- The 64-bit sum of two lengths. -/
def addUsize (a b : ℕ) : ℕ :=
  (a + b) % 18446744073709551616

/-! ### Computing the checksums -/

/-- Length of a block. -/
def blockLength (head : SumHead) (isLast : Bool) : ℤ :=
  if isLast ∧ head.remainder ≠ 0 then head.remainder else head.blength

/-- The checksums of the last `n` blocks, the first of them being the block `i`. -/
def computeSumBufsFrom (dig : Digests) (data : List UInt8) (head : SumHead)
    (strongType : ChecksumType) (seed : ℕ) (proper : Bool) :
    ℕ → ℕ → Except Error (List SumBuf)
  | 0, _ => pure []
  | n + 1, i => do
    let blockLen := asUsize (blockLength head (n = 0))
    let offset := mulUsize i (asUsize head.blength)
    let block ← slice data offset (min (addUsize offset blockLen) data.length)
    let sum2 := dig.compute block strongType seed proper
    let sums ← computeSumBufsFrom dig data head strongType seed proper n (i + 1)
    pure ({ offset := offset, len := wrapI32 blockLen, sum1 := checksum1 block,
            sum2 := sum2.take (asUsize head.s2length) } :: sums)

/-- The checksums of the blocks of `data`. -/
def computeSumBufs (dig : Digests) (data : List UInt8) (head : SumHead) (csumType : CsumType)
    (seed : ℕ) (proper : Bool) : Except Error (List SumBuf) :=
  if head.count = 0 ∨ head.blength = 0 then
    pure []
  else do
    reserve sumBufSize (asUsize head.count)
    computeSumBufsFrom dig data head (csumTypeToChecksumType csumType) seed proper
      (asUsize head.count) 0

/-! ### Checksums on the wire -/

/-- Read what is sent ahead of the checksums. -/
def readSumHead : Session Reply SumHead := do
  let count ← readInt
  let blength ← readInt
  let s2length ← readInt
  let remainder ← readInt
  pure { count, blength, s2length, remainder }

/-- Write what is sent ahead of the checksums. -/
def writeSumHead (head : SumHead) : Session Reply Unit := do
  writeInt head.count
  writeInt head.blength
  writeInt head.s2length
  writeInt head.remainder

/-- Read the checksums of the last `n` blocks, the first of them at `offset`. -/
def readSumBufsFrom (head : SumHead) : ℕ → ℤ → Session Reply (List SumBuf)
  | 0, _ => pure []
  | n + 1, offset => do
    let sum1 ← readInt
    reserve 1 (asUsize head.s2length)
    let sum2 ← readBytes (asUsize head.s2length)
    let len := blockLength head (n = 0)
    let sums ← readSumBufsFrom head n (wrapI64 (offset + len))
    pure ({ offset, len, sum1 := UInt32.ofInt sum1, sum2 } :: sums)

/-- Read the checksums of all blocks. -/
def readSumBufs (head : SumHead) : Session Reply (List SumBuf) := do
  reserve sumBufSize (asUsize head.count)
  readSumBufsFrom head (asUsize head.count) 0

/-- Write the checksums of blocks. -/
def writeSumBufs : List SumBuf → Session Reply Unit
  | [] => pure ()
  | s :: sums => do
    writeInt (wrapI32 s.sum1.toNat)
    writeAll s.sum2
    writeSumBufs sums

/-- Compute and write the checksums of the last `n` blocks, the first of them being the block
`i`. -/
def generateAndWriteChecksumsFrom (dig : Digests) (data : List UInt8) (head : SumHead)
    (strongType : ChecksumType) (seed : ℕ) (proper : Bool) : ℕ → ℕ → Session Reply Unit
  | 0, _ => pure ()
  | n + 1, i => do
    let blockLen := asUsize (blockLength head (n = 0))
    let offset := mulUsize i (asUsize head.blength)
    let block ← slice data offset (min (addUsize offset blockLen) data.length)
    let sum2 := dig.compute block strongType seed proper
    writeInt (wrapI32 (checksum1 block).toNat)
    writeAll (sum2.take (asUsize head.s2length))
    generateAndWriteChecksumsFrom dig data head strongType seed proper n (i + 1)

/-- Compute and write the checksums of the blocks of `data`. -/
def generateAndWriteChecksums (dig : Digests) (data : List UInt8) (head : SumHead)
    (csumType : CsumType) (seed : ℕ) (proper : Bool) : Session Reply Unit :=
  if head.count = 0 ∨ head.blength = 0 then
    pure ()
  else
    generateAndWriteChecksumsFrom dig data head (csumTypeToChecksumType csumType) seed proper
      (asUsize head.count) 0

/-! ### What is read is what was written -/

/-- The numbers of a head fit into 32 bits. -/
structure SumHead.InRange (head : SumHead) : Prop where
  count : IsI32 head.count
  blength : IsI32 head.blength
  s2length : IsI32 head.s2length
  remainder : IsI32 head.remainder

/-- The bytes of a head. -/
def encodeSumHead (head : SumHead) : List UInt8 :=
  leBytes 4 head.count ++ (leBytes 4 head.blength ++
    (leBytes 4 head.s2length ++ leBytes 4 head.remainder))

theorem writes_writeSumHead
    (head : SumHead) :
  Proc.Writes answer (writeSumHead head : Session Reply Unit) (encodeSumHead head) ()
  := (writes_writeInt _).bind ((writes_writeInt _).bind
      ((writes_writeInt _).bind (writes_writeInt _)))

theorem reads_readSumHead
    {head : SumHead} (h : head.InRange) :
  Proc.Reads answer (readSumHead : Session Reply SumHead) (encodeSumHead head) head
  := by
  apply (reads_readInt h.count).bind
  apply (reads_readInt h.blength).bind
  apply (reads_readInt h.s2length).bind
  apply (reads_readInt h.remainder).map

/-- The bytes of the checksums of blocks. -/
def encodeSumBufs : List SumBuf → List UInt8
  | [] => []
  | s :: sums => leBytes 4 (wrapI32 s.sum1.toNat) ++ (s.sum2 ++ encodeSumBufs sums)

theorem writes_writeSumBufs
    (sums : List SumBuf) :
  Proc.Writes answer (writeSumBufs sums : Session Reply Unit) (encodeSumBufs sums) ()
  := by
  induction sums with
  | nil => apply Proc.writes_pure
  | cons s sums ih => apply (writes_writeInt _).bind ((writes_writeAll _).bind ih)

/-- The blocks follow each other from `offset`, with the lengths and the number of checksum
bytes that the head announces. -/
def SumsFollow (head : SumHead) : ℤ → List SumBuf → Prop
  | _, [] => True
  | offset, s :: sums =>
    s.offset = offset ∧ s.len = blockLength head (sums = []) ∧
      s.sum2.length = asUsize head.s2length ∧ SumsFollow head (wrapI64 (offset + s.len)) sums

/-- A word read as a signed number gives the word back. -/
theorem ofInt_wrapI32_toNat
    (x : UInt32) :
  UInt32.ofInt (wrapI32 x.toNat) = x
  := by
  apply UInt32.toNat_inj.mp
  have hx := x.toNat_lt
  have hm : wrapI32 x.toNat % 2 ^ 32 = x.toNat := by
    unfold wrapI32
    omega
  rw [UInt32.ofInt, hm, Int.toNat_natCast, UInt32.ofNat_toNat]

theorem reserve_eq
    {size n : ℕ} (h : size * n < 9223372036854775808) :
  reserve size n = .ok ()
  := by
  rw [reserve, if_neg (by omega)]
  rfl

/-- There is room for the checksums of all blocks that a head can announce. -/
theorem reserve_sums
    {n : ℕ} (h : n < 2147483648) :
  reserve sumBufSize n = .ok ()
  := reserve_eq (show 48 * n < 9223372036854775808 by omega)

/-- Room is reserved for a number of elements unless it is negative. -/
theorem reserve_cases
    {size : ℕ} (hsize : 1 ≤ size ∧ size ≤ sumBufSize) {x : ℤ} (h : IsI32 x) :
  (0 ≤ x → reserve size (asUsize x) = .ok ()) ∧
    (x < 0 → reserve size (asUsize x) = .error (.panic "capacity overflow"))
  := by
  obtain ⟨h₁, h₂⟩ := h
  constructor
  · intro hx
    apply reserve_eq
    rw [asUsize_of_nonneg hx (by omega)]
    have hbytes := Nat.mul_le_mul hsize.2 (show x.toNat ≤ 2147483647 by omega)
    have hlimit : sumBufSize * 2147483647 < 9223372036854775808 := by decide
    exact lt_of_le_of_lt hbytes hlimit
  · intro hx
    apply if_pos
    have hbytes := Nat.mul_le_mul_right (asUsize x) hsize.1
    rw [one_mul] at hbytes
    apply le_trans _ hbytes
    unfold asUsize
    omega

theorem slice_eq
    {data : List UInt8} {start stop : ℕ} (h₁ : start ≤ stop) (h₂ : stop ≤ data.length) :
  slice data start stop = .ok ((data.drop start).take (stop - start))
  := by
  rw [slice, if_neg (by omega)]
  rfl

theorem reads_readSumBufsFrom
    {head : SumHead} (h2 : asUsize head.s2length < 9223372036854775808) {offset : ℤ}
    {sums : List SumBuf} (h : SumsFollow head offset sums) :
  Proc.Reads answer (readSumBufsFrom head sums.length offset : Session Reply (List SumBuf))
    (encodeSumBufs sums) sums
  := by
  induction sums generalizing offset with
  | nil => apply Proc.reads_pure
  | cons s sums ih =>
      obtain ⟨hoff, hlen, h2len, hrest⟩ := h
      apply (reads_readInt (isI32_wrapI32 _)).bind
      apply reads_lift_bind (reserve_eq (by omega))
      apply (reads_readBytes s.sum2 h2len).bind
      have he : blockLength head (decide (sums.length = 0)) = s.len := by
        simp only [List.length_eq_zero_iff, hlen]
      rw [he, ofInt_wrapI32_toNat, ← hoff]
      rw [← hoff] at hrest
      apply (ih hrest).map

/-! ### The blocks of a file tile it -/

/-- The head lays out `size` bytes in blocks: all blocks but the last are full and inside,
and the last one ends at the end. -/
structure SumHead.Tiles (head : SumHead) (size : ℕ) : Prop where
  blength_ge : 700 ≤ head.blength
  blength_le : head.blength ≤ 131072
  count_ge : 0 ≤ head.count
  count_lt : head.count < 2147483648
  remainder_ge : 0 ≤ head.remainder
  remainder_lt : head.remainder < head.blength
  /-- A block that is not the last one is full. -/
  full : ∀ i : ℕ, (i : ℤ) + 1 < head.count → (i + 1) * head.blength ≤ size
  /-- The last block ends at the end. -/
  last : ∀ i : ℕ, (i : ℤ) + 1 = head.count → i * head.blength + blockLength head true = size

theorem blockLenForFile_range
    (size : ℕ) :
  700 ≤ blockLenForFile size ∧ blockLenForFile size ≤ 131072
  := by
  unfold blockLenForFile blockSize maxBlockSize
  omega

/-- Rounding a quotient up. -/
theorem ceil_bounds
    (n : ℤ) {b : ℤ} (hb : 0 < b) :
  n ≤ (n + b - 1) / b * b ∧ (n + b - 1) / b * b < n + b
  := by
  have h₁ := Int.ediv_mul_le (n + b - 1) (ne_of_gt hb)
  have h₂ := Int.lt_ediv_add_one_mul_self (n + b - 1) hb
  rw [add_mul, one_mul] at h₂
  omega

/-- The head made for a file, in the numbers of the file. -/
theorem makeSumHead_eq
    (size : ℕ) (sumLen : ℤ) :
  makeSumHead size sumLen =
    { count := wrapI32 ((wrapI64 (size + blockLenForFile size - 1)).tdiv (blockLenForFile size))
      blength := blockLenForFile size
      s2length := sumLen
      remainder := size % blockLenForFile size }
  := by
  obtain ⟨hge, hle⟩ := blockLenForFile_range size
  obtain rfl | hsize := Nat.eq_zero_or_pos size
  · rfl
  have hpos : ¬(blockLenForFile size ≤ 0 ∨ (size : ℤ) ≤ 0) := by omega
  have hr : IsI32 (size % blockLenForFile size) := by
    have h₁ := Int.emod_nonneg (size : ℤ) (show blockLenForFile size ≠ 0 by omega)
    have h₂ := Int.emod_lt_of_pos (size : ℤ) (show 0 < blockLenForFile size by omega)
    constructor <;> omega
  simp only [makeSumHead, sumCountForFile, remainderForFile, if_neg hpos,
    Int.tmod_eq_emod_of_nonneg (show 0 ≤ (size : ℤ) by omega), wrapI32_of_isI32 hr]

/-- The number of blocks of a file, when it fits into 32 bits. -/
theorem wrapI32_blocks
    (size : ℕ)
    (hcount : (size + blockLenForFile size - 1) / blockLenForFile size < 2147483648) :
  wrapI32 ((wrapI64 (size + blockLenForFile size - 1)).tdiv (blockLenForFile size)) =
    (size + blockLenForFile size - 1) / blockLenForFile size
  := by
  obtain ⟨hge, hle⟩ := blockLenForFile_range size
  obtain ⟨hlow, -⟩ := ceil_bounds size (show 0 < blockLenForFile size by omega)
  have hblocks := Int.ediv_nonneg (show 0 ≤ size + blockLenForFile size - 1 by omega)
    (show 0 ≤ blockLenForFile size by omega)
  have hbytes := Int.mul_le_mul (Int.le_sub_one_of_lt hcount) hle
    (show 0 ≤ blockLenForFile size by omega) (by decide)
  rw [wrapI64_of_isI64 ⟨by omega, by omega⟩, Int.tdiv_eq_ediv_of_nonneg (by omega)]
  exact wrapI32_of_isI32 ⟨by omega, hcount⟩

/-- The head made for a file lays it out, when the number of its blocks fits into 32 bits. -/
theorem tiles_makeSumHead
    (size : ℕ) (sumLen : ℤ)
    (hcount : (size + blockLenForFile size - 1) / blockLenForFile size < 2147483648) :
  (makeSumHead size sumLen).Tiles size
  := by
  have hhead := makeSumHead_eq size sumLen
  rw [wrapI32_blocks size hcount] at hhead
  obtain ⟨hge, hle⟩ := blockLenForFile_range size
  generalize blockLenForFile size = b at hge hle hcount hhead
  obtain ⟨hlow, hhigh⟩ := ceil_bounds size (show 0 < b by omega)
  have hnonneg := Int.ediv_nonneg (show 0 ≤ size + b - 1 by omega) (show 0 ≤ b by omega)
  rw [hhead]
  generalize (size + b - 1) / b = c at hcount hlow hhigh hnonneg
  constructor
  · apply hge
  · apply hle
  · apply hnonneg
  · apply hcount
  · apply Int.emod_nonneg
    omega
  · apply Int.emod_lt_of_pos
    omega
  · intro i hi
    dsimp only at hi ⊢
    have h := Int.mul_le_mul_of_nonneg_right (show (i : ℤ) + 1 ≤ c - 1 by omega)
      (show 0 ≤ b by omega)
    rw [sub_mul, one_mul] at h
    omega
  · intro i hi
    dsimp only at hi ⊢
    have hi' : (i : ℤ) * b = c * b - b := by
      rw [← hi, add_mul, one_mul]
      omega
    -- the rest of the file after the block `i - 1` is a block, full or not
    have hmod : (size : ℤ) % b = (size - i * b) % b := by
      rw [Int.sub_mul_emod_self_right]
    obtain hfull | hpart : size - i * b = b ∨ size - i * b < b := by omega
    · rw [hfull, Int.emod_self] at hmod
      simp only [blockLength, hmod]
      norm_num
      omega
    · rw [Int.emod_eq_of_lt (by omega) hpart] at hmod
      have hne : (size : ℤ) % b ≠ 0 := by omega
      simp only [blockLength, hne, ne_eq, not_false_eq_true, and_self, if_true]
      omega

/-- The blocks of the head lie inside `size` bytes. -/
structure SumHead.Inside (head : SumHead) (size : ℕ) : Prop where
  blength_ge : 700 ≤ head.blength
  blength_le : head.blength ≤ 131072
  count_ge : 0 ≤ head.count
  count_lt : head.count < 2147483648
  remainder_ge : 0 ≤ head.remainder
  remainder_lt : head.remainder < head.blength
  /-- A block ends inside. -/
  inside : ∀ i : ℕ, (i : ℤ) < head.count →
    i * head.blength + blockLength head (i + 1 = head.count) ≤ size

theorem SumHead.Tiles.inside
    {head : SumHead} {size : ℕ} (h : head.Tiles size) :
  head.Inside size
  := by
  refine ⟨h.blength_ge, h.blength_le, h.count_ge, h.count_lt, h.remainder_ge, h.remainder_lt, ?_⟩
  intro i hi
  by_cases hlast : (i : ℤ) + 1 = head.count
  · simp only [hlast, decide_true]
    apply le_of_eq (h.last i hlast)
  · simp only [hlast, decide_false, blockLength, Bool.false_eq_true, false_and, if_false]
    have hfull := h.full i (by omega)
    rw [add_mul, one_mul] at hfull
    apply hfull

/-- The blocks of the head made for a file lie inside it, whenever their number, in 32 bits, is
not negative. -/
theorem inside_makeSumHead
    (size : ℕ) (sumLen : ℤ) (hcount : 0 ≤ (makeSumHead size sumLen).count) :
  (makeSumHead size sumLen).Inside size
  := by
  by_cases hfew : (size + blockLenForFile size - 1) / blockLenForFile size < 2147483648
  · apply (tiles_makeSumHead size sumLen hfew).inside
  obtain ⟨hge, hle⟩ := blockLenForFile_range size
  obtain ⟨hlow, hhigh⟩ := ceil_bounds size (show 0 < blockLenForFile size by omega)
  have hrem := Int.emod_nonneg (size : ℤ) (show blockLenForFile size ≠ 0 by omega)
  have hrem' := Int.emod_lt_of_pos (size : ℤ) (show 0 < blockLenForFile size by omega)
  rw [makeSumHead_eq] at hcount ⊢
  dsimp only at hcount
  generalize blockLenForFile size = b at *
  generalize (size + b - 1) / b = c at *
  have hc : wrapI32 ((wrapI64 (size + b - 1)).tdiv b) < 2147483648 := (isI32_wrapI32 _).2
  generalize wrapI32 ((wrapI64 (size + b - 1)).tdiv b) = n at *
  refine ⟨hge, hle, hcount, hc, hrem, hrem', ?_⟩
  intro i hi
  dsimp only at hi ⊢
  -- a block with another one behind it in the file
  have h := Int.mul_le_mul_of_nonneg_right (show (i : ℤ) + 1 ≤ c - 1 by omega)
    (show 0 ≤ b by omega)
  rw [sub_mul, one_mul, add_mul, one_mul] at h
  unfold blockLength
  split
  · dsimp only
    omega
  · dsimp only
    omega

/-! ### The blocks as they are summed -/

/-- The length of a block is positive and at most the block length. -/
theorem SumHead.Inside.blockLength_range
    {head : SumHead} {size : ℕ} (h : head.Inside size) (isLast : Bool) :
  0 < blockLength head isLast ∧ blockLength head isLast ≤ head.blength
  := by
  have h₁ := h.blength_ge
  have h₂ := h.remainder_ge
  have h₃ := h.remainder_lt
  unfold blockLength
  split <;> omega

/-- The bytes of the block `i` of `data`, of the length that the head gives to it. -/
def summedBlock (data : List UInt8) (head : SumHead) (i : ℕ) : List UInt8 :=
  (data.drop (i * head.blength.toNat)).take (blockLength head (i + 1 = head.count)).toNat

/-- The checksums of the block `i` of `data`, of the length that the head gives to it. -/
def summedAt (dig : Digests) (data : List UInt8) (head : SumHead) (strongType : ChecksumType)
    (seed : ℕ) (proper : Bool) (i : ℕ) : SumBuf :=
  { offset := i * head.blength
    len := blockLength head (i + 1 = head.count)
    sum1 := checksum1 (summedBlock data head i)
    sum2 := (dig.compute (summedBlock data head i) strongType seed proper).take
      (asUsize head.s2length) }

/-- The bytes the code takes for the block `i` are that block. -/
theorem SumHead.Inside.slice_block
    {head : SumHead} {data : List UInt8} (h : head.Inside data.length) {i : ℕ}
    (hi : (i : ℤ) < head.count) :
  slice data (mulUsize i (asUsize head.blength))
      (min (addUsize (mulUsize i (asUsize head.blength))
        (asUsize (blockLength head (i + 1 = head.count)))) data.length) =
    .ok (summedBlock data head i)
  := by
  have h₁ := h.blength_ge
  have h₂ := h.blength_le
  have h₃ := h.count_lt
  have hend := h.inside i hi
  obtain ⟨hpos, hle⟩ := h.blockLength_range (i + 1 = head.count)
  rw [asUsize_of_nonneg (by omega) (by omega), asUsize_of_nonneg (by omega) (by omega),
    summedBlock]
  generalize hl : blockLength head (i + 1 = head.count) = l at hend hpos hle ⊢
  generalize hb : head.blength.toNat = b
  have hbig : i * b ≤ 2147483647 * 131072 := Nat.mul_le_mul (by omega) (by omega)
  have hmul : mulUsize i b = i * b := Nat.mod_eq_of_lt (by omega)
  have hadd : addUsize (i * b) l.toNat = i * b + l.toNat := Nat.mod_eq_of_lt (by omega)
  have hbz : head.blength = b := by omega
  have hlz : l = l.toNat := by omega
  rw [hbz, hlz] at hend
  have hlen : i * b + l.toNat ≤ data.length := by exact_mod_cast hend
  rw [hmul, hadd, min_eq_left hlen, slice_eq (by omega) hlen, Nat.add_sub_cancel_left]

theorem computeSumBufsFrom_eq
    (dig : Digests) {data : List UInt8} {head : SumHead} (h : head.Inside data.length)
    (strongType : ChecksumType) (seed : ℕ) (proper : Bool) {n i : ℕ}
    (hn : (i + n : ℕ) = head.count) :
  computeSumBufsFrom dig data head strongType seed proper n i =
    .ok ((List.range' i n).map (summedAt dig data head strongType seed proper))
  := by
  induction n generalizing i with
  | zero => rfl
  | succ n ih =>
      have hlast : (n = 0) = ((i : ℤ) + 1 = head.count) := by
        apply propext
        omega
      have hblk := h.slice_block (i := i) (by omega)
      have h₁ := h.blength_ge
      have h₂ := h.blength_le
      have h₃ := h.count_lt
      obtain ⟨hpos, hle⟩ := h.blockLength_range (i + 1 = head.count)
      have hlen : wrapI32 (asUsize (blockLength head (i + 1 = head.count))) =
          blockLength head (i + 1 = head.count) := by
        rw [asUsize_of_nonneg (by omega) (by omega), Int.toNat_of_nonneg (by omega)]
        apply wrapI32_of_isI32
        constructor <;> omega
      have hoff : ((mulUsize i (asUsize head.blength) : ℕ) : ℤ) = i * head.blength := by
        have hbig : i * head.blength.toNat ≤ 2147483647 * 131072 :=
          Nat.mul_le_mul (by omega) (by omega)
        rw [asUsize_of_nonneg (by omega) (by omega), mulUsize, Nat.mod_eq_of_lt (by omega)]
        push_cast
        rw [Int.toNat_of_nonneg (by omega)]
      have hrest := ih (i := i + 1) (by omega)
      rw [computeSumBufsFrom]
      simp only [hlast, hblk, hlen, hoff, hrest, List.range'_succ, List.map_cons]
      rfl

theorem sumsFollow_summedAt
    (dig : Digests) {data : List UInt8} {head : SumHead} (h : head.Inside data.length)
    {strongType : ChecksumType} (h2 : head.s2length = strongType.digestLen) (seed : ℕ)
    (proper : Bool) {n i : ℕ} (hn : (i + n : ℕ) = head.count) :
  SumsFollow head (i * head.blength)
    ((List.range' i n).map (summedAt dig data head strongType seed proper))
  := by
  induction n generalizing i with
  | zero => trivial
  | succ n ih =>
      have h₁ := h.blength_ge
      have h₂ := h.blength_le
      have h₃ := h.count_lt
      have hlast : ((List.range' (i + 1) n).map
          (summedAt dig data head strongType seed proper) = []) = ((i : ℤ) + 1 = head.count) := by
        rw [List.map_eq_nil_iff, List.range'_eq_nil_iff]
        apply propext
        omega
      rw [List.range'_succ, List.map_cons]
      refine ⟨rfl, ?_, ?_, ?_⟩
      · simp only [hlast]
        rfl
      · have hd := dig.digestLen_le_length_compute (summedBlock data head i) strongType seed
          proper
        have hs : asUsize head.s2length = strongType.digestLen := by
          rw [h2]
          cases strongType <;> rfl
        rw [summedAt, hs, List.length_take]
        omega
      · obtain rfl | hn0 := Nat.eq_zero_or_pos n
        · trivial
        · have hlen : blockLength head (i + 1 = head.count) = head.blength := by
            have hne : ¬((i : ℤ) + 1 = head.count) := by omega
            simp only [hne, decide_false, blockLength, Bool.false_eq_true, false_and, if_false]
          have hbig : ((i : ℤ) + 1) * head.blength ≤ 2147483648 * 131072 :=
            mul_le_mul (by omega) h₂ (by omega) (by omega)
          have hnext : wrapI64 (i * head.blength + blockLength head (i + 1 = head.count)) =
              (i + 1 : ℕ) * head.blength := by
            rw [hlen]
            push_cast
            rw [add_mul, one_mul] at hbig ⊢
            have hi := Int.mul_nonneg (show 0 ≤ (i : ℤ) by omega) (show 0 ≤ head.blength by omega)
            apply wrapI64_of_isI64
            constructor <;> omega
          have hrest := ih (i := i + 1) (by omega)
          rw [← hnext] at hrest
          apply hrest

/-- The checksums of the blocks of `data`, of the lengths that the head gives to them. -/
def summedBlocks (dig : Digests) (data : List UInt8) (head : SumHead) (strongType : ChecksumType)
    (seed : ℕ) (proper : Bool) : List SumBuf :=
  (List.range' 0 head.count.toNat).map (summedAt dig data head strongType seed proper)

/-- Computing the checksums of blocks that lie inside the data does not fail. -/
theorem computeSumBufs_summedBlocks
    (dig : Digests) {data : List UInt8} {head : SumHead} (h : head.Inside data.length)
    (ct : CsumType) (seed : ℕ) (proper : Bool) :
  computeSumBufs dig data head ct seed proper =
    .ok (summedBlocks dig data head (csumTypeToChecksumType ct) seed proper)
  := by
  have h₁ := h.blength_ge
  have h₂ := h.count_ge
  have h₃ := h.count_lt
  unfold computeSumBufs summedBlocks
  by_cases hz : head.count = 0
  · rw [if_pos (Or.inl hz), hz]
    rfl
  · rw [if_neg (by omega), asUsize_of_nonneg (by omega) (by omega), reserve_sums (by omega),
      ok_bind]
    apply computeSumBufsFrom_eq dig h
    omega

/-! ### The checksums of a file -/

/-- The block `i` of `data`. -/
def blockAt (data : List UInt8) (head : SumHead) (i : ℕ) : List UInt8 :=
  (data.drop (i * head.blength.toNat)).take head.blength.toNat

/-- The checksums of the block `i` of `data`. -/
def sumBufAt (dig : Digests) (data : List UInt8) (head : SumHead) (strongType : ChecksumType)
    (seed : ℕ) (proper : Bool) (i : ℕ) : SumBuf :=
  { offset := i * head.blength
    len := blockLength head (i + 1 = head.count)
    sum1 := checksum1 (blockAt data head i)
    sum2 := (dig.compute (blockAt data head i) strongType seed proper).take
      (asUsize head.s2length) }

/-- The checksums of the blocks of `data`. -/
def blockSums (dig : Digests) (data : List UInt8) (head : SumHead) (strongType : ChecksumType)
    (seed : ℕ) (proper : Bool) : List SumBuf :=
  (List.range' 0 head.count.toNat).map (sumBufAt dig data head strongType seed proper)

/-- A full block is summed as it is. -/
theorem summedBlock_of_full
    {head : SumHead} {data : List UInt8} {i : ℕ}
    (hfull : blockLength head (i + 1 = head.count) = head.blength) :
  summedBlock data head i = blockAt data head i
  := by
  rw [summedBlock, hfull, blockAt]

/-- In a file that is laid out in blocks each block is summed as it is: there are no bytes
behind the last one. -/
theorem SumHead.Tiles.summedBlock_eq
    {head : SumHead} {data : List UInt8} (h : head.Tiles data.length) (i : ℕ) :
  summedBlock data head i = blockAt data head i
  := by
  by_cases hlast : (i : ℤ) + 1 = head.count
  · have h₁ := h.blength_ge
    have hend := h.last i hlast
    obtain ⟨hpos, hle⟩ := h.inside.blockLength_range true
    simp only [summedBlock, blockAt, hlast, decide_true]
    generalize blockLength head true = l at *
    generalize hb : head.blength.toNat = b
    have hbz : head.blength = b := by omega
    have hlz : l = l.toNat := by omega
    rw [hbz, hlz] at hend
    have hlen : i * b + l.toNat = data.length := by exact_mod_cast hend
    rw [List.take_of_length_le, List.take_of_length_le]
    · rw [List.length_drop]
      omega
    · rw [List.length_drop]
      omega
  · apply summedBlock_of_full
    simp only [hlast, decide_false, blockLength, Bool.false_eq_true, false_and, if_false]

/-- The bytes the code takes for the block `i` are that block. -/
theorem SumHead.Tiles.slice_block
    {head : SumHead} {data : List UInt8} (h : head.Tiles data.length) {i : ℕ}
    (hi : (i : ℤ) < head.count) :
  slice data (mulUsize i (asUsize head.blength))
      (min (addUsize (mulUsize i (asUsize head.blength))
        (asUsize (blockLength head (i + 1 = head.count)))) data.length) =
    .ok (blockAt data head i)
  := by
  rw [h.inside.slice_block hi, h.summedBlock_eq]

theorem SumHead.Tiles.summedBlocks_eq
    {head : SumHead} {data : List UInt8} (h : head.Tiles data.length) (dig : Digests)
    (strongType : ChecksumType) (seed : ℕ) (proper : Bool) :
  summedBlocks dig data head strongType seed proper =
    blockSums dig data head strongType seed proper
  := by
  apply List.map_congr_left
  intro i _
  rw [summedAt, h.summedBlock_eq, sumBufAt]

/-- Computing the checksums of the blocks does not fail. -/
theorem computeSumBufs_eq
    (dig : Digests) {data : List UInt8} {head : SumHead} (h : head.Tiles data.length)
    (ct : CsumType) (seed : ℕ) (proper : Bool) :
  computeSumBufs dig data head ct seed proper =
    .ok (blockSums dig data head (csumTypeToChecksumType ct) seed proper)
  := by
  rw [computeSumBufs_summedBlocks dig h.inside, h.summedBlocks_eq]

/-- A block of the checksums. -/
theorem getElem?_blockSums
    {dig : Digests} {data : List UInt8} {head : SumHead} {strongType : ChecksumType} {seed : ℕ}
    {proper : Bool} {i : ℕ} {s : SumBuf}
    (hs : (blockSums dig data head strongType seed proper)[i]? = some s) :
  (i : ℤ) < head.count ∧ s = sumBufAt dig data head strongType seed proper i
  := by
  unfold blockSums at hs
  rw [List.getElem?_map, Option.map_eq_some_iff] at hs
  obtain ⟨j, hj, rfl⟩ := hs
  obtain ⟨hlt, rfl⟩ := List.getElem?_eq_some_iff.mp hj
  rw [List.length_range'] at hlt
  rw [List.getElem_range']
  constructor
  · omega
  · congr 1
    omega

/-- Number of bytes of a checksum of a block, as the code computes it. -/
theorem asUsize_csumSumLen
    (ct : CsumType) :
  asUsize (csumSumLen ct) = (csumTypeToChecksumType ct).digestLen ∧ IsI32 (csumSumLen ct) ∧
    (csumTypeToChecksumType ct).digestLen ≤ 16
  := by
  cases ct <;> decide

theorem SumHead.Inside.inRange
    {head : SumHead} {size : ℕ} (h : head.Inside size) (h2 : IsI32 head.s2length) :
  head.InRange
  := by
  have h₁ := h.blength_ge
  have h₂ := h.blength_le
  have h₃ := h.count_ge
  have h₄ := h.count_lt
  have h₅ := h.remainder_ge
  have h₆ := h.remainder_lt
  constructor
  · constructor <;> omega
  · constructor <;> omega
  · apply h2
  · constructor <;> omega

/-- The checksums of blocks are read as they were written. -/
theorem reads_summedBlocks
    (dig : Digests) {data : List UInt8} {head : SumHead} (h : head.Inside data.length)
    {ct : CsumType} (h2 : head.s2length = csumSumLen ct) (seed : ℕ) (proper : Bool) :
  Proc.Reads answer (readSumBufs head : Session Reply (List SumBuf))
    (encodeSumBufs (summedBlocks dig data head (csumTypeToChecksumType ct) seed proper))
    (summedBlocks dig data head (csumTypeToChecksumType ct) seed proper)
  := by
  have h₃ := h.count_ge
  have h₄ := h.count_lt
  obtain ⟨hs2, -, hd⟩ := asUsize_csumSumLen ct
  have hc : asUsize head.count = head.count.toNat := asUsize_of_nonneg (by omega) (by omega)
  have hlen : (summedBlocks dig data head (csumTypeToChecksumType ct) seed proper).length =
      head.count.toNat := by
    simp [summedBlocks]
  have hfollow := sumsFollow_summedAt (n := head.count.toNat) (i := 0) dig h h2 seed proper
    (by omega)
  rw [Nat.cast_zero, zero_mul] at hfollow
  rw [readSumBufs, hc]
  apply reads_lift_bind (reserve_sums (by omega))
  rw [← hlen]
  apply reads_readSumBufsFrom _ hfollow
  rw [h2, hs2]
  omega

/-- The checksums of a file are read as they were written. -/
theorem reads_blockSums
    (dig : Digests) {data : List UInt8} {head : SumHead} (h : head.Tiles data.length)
    {ct : CsumType} (h2 : head.s2length = csumSumLen ct) (seed : ℕ) (proper : Bool) :
  Proc.Reads answer (readSumBufs head : Session Reply (List SumBuf))
    (encodeSumBufs (blockSums dig data head (csumTypeToChecksumType ct) seed proper))
    (blockSums dig data head (csumTypeToChecksumType ct) seed proper)
  := by
  rw [← h.summedBlocks_eq]
  apply reads_summedBlocks dig h.inside h2

/-- The checksums of a file are at most sixteen bytes long. -/
theorem length_sum2_blockSums
    (dig : Digests) (data : List UInt8) {head : SumHead} {ct : CsumType}
    (h2 : head.s2length = csumSumLen ct) (seed : ℕ) (proper : Bool) :
  ∀ s ∈ blockSums dig data head (csumTypeToChecksumType ct) seed proper,
    s.sum2.length ≤ 16
  := by
  intro s hs
  obtain ⟨i, -, rfl⟩ := List.mem_map.mp hs
  obtain ⟨hs2, -, hd⟩ := asUsize_csumSumLen ct
  rw [sumBufAt, h2, hs2, List.length_take]
  omega

/-! ### Checksums computed as they are written -/

/-- Before a computation that succeeds nothing is written. -/
theorem writes_lift_bind
    {α β : Type} {x : Except Error α} {f : α → Session Reply β} {a : α} {b : β}
    {bs : List UInt8} (hx : x = .ok a) (hf : Proc.Writes answer (f a) bs b) :
  Proc.Writes answer ((liftM x : Session Reply α) >>= f) bs b
  := by
  rw [lift_bind hx]
  apply hf

theorem writes_generateAndWriteChecksumsFrom
    (dig : Digests) {data : List UInt8} {head : SumHead} (h : head.Inside data.length)
    (strongType : ChecksumType) (seed : ℕ) (proper : Bool) {n i : ℕ}
    (hn : (i + n : ℕ) = head.count) :
  Proc.Writes answer
    (generateAndWriteChecksumsFrom dig data head strongType seed proper n i : Session Reply Unit)
    (encodeSumBufs ((List.range' i n).map (summedAt dig data head strongType seed proper))) ()
  := by
  induction n generalizing i with
  | zero => apply Proc.writes_pure
  | succ n ih =>
      have hlast : (n = 0) = ((i : ℤ) + 1 = head.count) := by
        apply propext
        omega
      have hblk := h.slice_block (i := i) (by omega)
      rw [generateAndWriteChecksumsFrom]
      simp only [hlast]
      apply writes_lift_bind hblk
      apply (writes_writeInt _).bind ((writes_writeAll _).bind (ih (by omega)))

/-- The checksums computed as they are written are those of the blocks. -/
theorem writes_generateAndWriteChecksums
    (dig : Digests) {data : List UInt8} {head : SumHead} (h : head.Inside data.length)
    (ct : CsumType) (seed : ℕ) (proper : Bool) :
  Proc.Writes answer
    (generateAndWriteChecksums dig data head ct seed proper : Session Reply Unit)
    (encodeSumBufs (summedBlocks dig data head (csumTypeToChecksumType ct) seed proper)) ()
  := by
  have h₁ := h.blength_ge
  have h₂ := h.count_ge
  have h₃ := h.count_lt
  unfold generateAndWriteChecksums summedBlocks
  by_cases hz : head.count = 0
  · rw [if_pos (Or.inl hz), hz]
    apply Proc.writes_pure
  · rw [if_neg (by omega), asUsize_of_nonneg (by omega) (by omega)]
    apply writes_generateAndWriteChecksumsFrom dig h
    omega

/-! ### The checksums of a file on the wire -/

/-- The blocks follow each other from `offset` without a gap, none is empty, and the last one
ends at the end of `size` bytes. -/
def BlocksCover (size : ℤ) : ℤ → List SumBuf → Prop
  | offset, [] => offset = size
  | offset, s :: sums => s.offset = offset ∧ 0 < s.len ∧ BlocksCover size (offset + s.len) sums

/-- The blocks that are left from the block `i` cover the rest of a file that the head lays
out. -/
theorem SumHead.Tiles.blocksCover_from
    {head : SumHead} {data : List UInt8} (h : head.Tiles data.length) (dig : Digests)
    (strongType : ChecksumType) (seed : ℕ) (proper : Bool) {n i : ℕ}
    (hn : (i + n + 1 : ℕ) = head.count) :
  BlocksCover data.length (i * head.blength)
    ((List.range' i (n + 1)).map (sumBufAt dig data head strongType seed proper))
  := by
  obtain ⟨hpos, -⟩ := h.inside.blockLength_range (i + 1 = head.count)
  induction n generalizing i with
  | zero =>
      have hlast : (i : ℤ) + 1 = head.count := by omega
      refine ⟨rfl, hpos, ?_⟩
      have hend := h.last i hlast
      simp only [sumBufAt, hlast, decide_true, List.range'_zero, List.map_nil, BlocksCover, hend]
  | succ n ih =>
      have hne : ¬((i : ℤ) + 1 = head.count) := by omega
      have hlen : blockLength head (i + 1 = head.count) = head.blength := by
        simp only [hne, decide_false, blockLength, Bool.false_eq_true, false_and, if_false]
      obtain ⟨hpos', -⟩ := h.inside.blockLength_range ((i + 1 : ℕ) + 1 = head.count)
      have hrest := ih (i := i + 1) (by omega) hpos'
      refine ⟨rfl, hpos, ?_⟩
      rw [Nat.cast_add, Nat.cast_one, add_mul, one_mul] at hrest
      simp only [sumBufAt, hlen]
      apply hrest

/-- The blocks of a file cover it. -/
theorem blocksCover_blockSums
    (dig : Digests) (data : List UInt8) (sumLen : ℤ) (strongType : ChecksumType) (seed : ℕ)
    (proper : Bool)
    (hcount : ((data.length : ℤ) + blockLenForFile data.length - 1) /
      blockLenForFile data.length < 2147483648) :
  BlocksCover data.length 0
    (blockSums dig data (makeSumHead data.length sumLen) strongType seed proper)
  := by
  have htiles := tiles_makeSumHead data.length sumLen hcount
  have hc : (makeSumHead data.length sumLen).count =
      (data.length + blockLenForFile data.length - 1) / blockLenForFile data.length := by
    rw [makeSumHead_eq]
    apply wrapI32_blocks _ hcount
  obtain ⟨hlow, -⟩ := ceil_bounds data.length
    (show 0 < blockLenForFile data.length by have := blockLenForFile_range data.length; omega)
  have h₁ := htiles.count_ge
  unfold blockSums
  obtain hz | hpos := eq_or_lt_of_le h₁
  · -- without blocks the file is empty
    rw [← hc, ← hz, zero_mul] at hlow
    rw [← hz]
    show (0 : ℤ) = data.length
    omega
  · have hn : (makeSumHead data.length sumLen).count.toNat =
        (makeSumHead data.length sumLen).count.toNat - 1 + 1 := by omega
    have hcover := htiles.blocksCover_from dig strongType seed proper (i := 0)
      (n := (makeSumHead data.length sumLen).count.toNat - 1) (by omega)
    rw [Nat.cast_zero, zero_mul, ← hn] at hcover
    apply hcover

/-- The blocks of a file cover it, their checksums are written the same way whether they are
collected first or not, and the other side reads them back. -/
theorem readSumBufs_generated
    (answer : H → (x : X) → Option (Reply x × H)) (dig : Digests) (data : List UInt8)
    (ct : CsumType) (seed : ℕ) (proper : Bool)
    (hcount : ((data.length : ℤ) + blockLenForFile data.length - 1) /
      blockLenForFile data.length < 2147483648) :
  ∃ sums wire,
    computeSumBufs dig data (makeSumHead data.length (csumSumLen ct)) ct seed proper = .ok sums ∧
    BlocksCover data.length 0 sums ∧
    Proc.Writes answer (writeSumBufs sums : Session Reply Unit) wire () ∧
    Proc.Writes answer
      (generateAndWriteChecksums dig data (makeSumHead data.length (csumSumLen ct)) ct seed proper :
        Session Reply Unit) wire () ∧
    Proc.Reads answer (readSumBufs (makeSumHead data.length (csumSumLen ct)) :
      Session Reply (List SumBuf)) wire sums
  := by
  have htiles := tiles_makeSumHead data.length (csumSumLen ct) hcount
  refine ⟨_, _, computeSumBufs_eq dig htiles ct seed proper,
    blocksCover_blockSums dig data _ _ seed proper hcount, writes_writeSumBufs _, ?_, ?_⟩
  · rw [← htiles.summedBlocks_eq]
    apply writes_generateAndWriteChecksums dig htiles.inside
  · apply reads_blockSums dig htiles rfl

theorem readSumBufs_generated_zeros :
  ∃ sums wire,
    computeSumBufs digestsOfZeros (List.replicate 700 0) (makeSumHead 700 16) .md5 0 false =
      .ok sums ∧
    BlocksCover 700 0 sums ∧
    Proc.Writes (fun h _ => some ((), h) : Unit → Unit → Option (Unit × Unit))
      (writeSumBufs sums : Session _ Unit) wire () ∧
    Proc.Writes (fun h _ => some ((), h) : Unit → Unit → Option (Unit × Unit))
      (generateAndWriteChecksums digestsOfZeros (List.replicate 700 0) (makeSumHead 700 16) .md5 0
        false : Session _ Unit) wire () ∧
    Proc.Reads (fun h _ => some ((), h) : Unit → Unit → Option (Unit × Unit))
      (readSumBufs (makeSumHead 700 16) : Session _ (List SumBuf)) wire sums
  := by
  have hlen : (List.replicate 700 (0 : UInt8)).length = 700 := List.length_replicate
  have h := readSumBufs_generated (fun h _ => some ((), h) : Unit → Unit → Option (Unit × Unit))
    digestsOfZeros (List.replicate 700 0) .md5 0 false
  rw [hlen] at h
  apply h (by decide)
