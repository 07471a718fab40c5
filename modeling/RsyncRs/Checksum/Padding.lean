import RsyncRs.Checksum.Md4

/-!
# Classic MD4 against the standard

`md4Standard` is the digest of RFC 1320, over the compression function of the code: the data
followed by one bit, by zeros and by their length in bits, compressed block by block. The
classic digest is the standard one as long as the length fits in its 32-bit count and the
last block is not full.
-/

namespace Md4State

/-- The state after `n` blocks at the head of the data. -/
def compressBlocks (s : Md4State) : ℕ → List UInt8 → Md4State
  | 0, _ => s
  | n + 1, data => compressBlocks (s.compress (data.take 64)) n (data.drop 64)

end Md4State

/-- The data as the standard pads them: with one bit, with zeros up to eight bytes before
the end of a block, and with the number of bits of the data. -/
def md4Padded (data : List UInt8) : List UInt8 :=
  data ++ [0x80] ++ List.replicate ((119 - data.length % 64) % 64) 0 ++
    leBytes 8 (8 * data.length)

/-- The digest of RFC 1320. -/
def md4Standard (data : List UInt8) : List UInt8 :=
  (Md4State.compressBlocks {} ((md4Padded data).length / 64) (md4Padded data)).resultRaw

namespace Md4State

/-! ### The chaining words -/

/-- The words that a block is compressed into. -/
def words (s : Md4State) : Md4Words :=
  (s.a, s.b, s.c, s.d)

/-- The counters take no part in the compression. -/
theorem words_compress
    {s t : Md4State} (h : s.words = t.words) (block : List UInt8) :
  (s.compress block).words = (t.compress block).words
  := by
  simp only [words, Prod.mk.injEq] at h
  obtain ⟨ha, hb, hc, hd⟩ := h
  unfold compress
  rw [ha, hb, hc, hd]
  dsimp only
  generalize List.foldl (md4Step (md4Message 16 block) md4H 0x6ED9EBA1) _ md4Round3 = w
  obtain ⟨a, b, c, d⟩ := w
  rfl

theorem totalN_compress
    (s : Md4State) (block : List UInt8) :
  (s.compress block).totalN = s.totalN
  := by
  unfold compress
  extract_lets m w₁ w₂
  generalize List.foldl (md4Step m md4H 0x6ED9EBA1) w₂ md4Round3 = w
  obtain ⟨a, b, c, d⟩ := w
  rfl

theorem words_updateBlock
    (s : Md4State) (block : List UInt8) :
  (s.updateBlock block).words = (s.compress block).words
  := by
  simp only [updateBlock, words]

theorem words_compressBlocks
    {s t : Md4State} (h : s.words = t.words) (n : ℕ) (data : List UInt8) :
  (s.compressBlocks n data).words = (t.compressBlocks n data).words
  := by
  induction n generalizing s t data with
  | zero => apply h
  | succ n ih => apply ih (words_compress h _)

/-- The counters take no part in the digest. -/
theorem resultRaw_eq_of_words
    {s t : Md4State} (h : s.words = t.words) :
  s.resultRaw = t.resultRaw
  := by
  obtain ⟨a, b, c, d, n, n2⟩ := s
  obtain ⟨a', b', c', d', m, m2⟩ := t
  cases h
  rfl

/-! ### Block by block -/

theorem compressBlocks_add
    (s : Md4State) (n m : ℕ) (data : List UInt8) :
  s.compressBlocks (n + m) data =
    (s.compressBlocks n data).compressBlocks m (data.drop (64 * n))
  := by
  induction n generalizing s data with
  | zero => rw [Nat.zero_add]; rfl
  | succ n ih =>
      rw [Nat.add_right_comm, compressBlocks, ih, List.drop_drop, compressBlocks]
      congr 2
      omega

/-- What follows the blocks makes no difference to them. -/
theorem compressBlocks_append
    (s : Md4State) {n : ℕ} {data : List UInt8} (h : 64 * n ≤ data.length)
    (rest : List UInt8) :
  s.compressBlocks n (data ++ rest) = s.compressBlocks n data
  := by
  induction n generalizing s data with
  | zero => rfl
  | succ n ih =>
      have hdrop : 64 * n ≤ (data.drop 64).length := by
        rw [List.length_drop]
        omega
      rw [compressBlocks, List.take_append_of_le_length (by omega),
        List.drop_append_of_le_length (by omega), ih _ hdrop, compressBlocks]

theorem totalN_updateBlock
    (s : Md4State) (block : List UInt8) :
  (s.updateBlock block).totalN = s.totalN + 512
  := by
  rw [updateBlock, totalN_compress]

/-- The full blocks at the head of the data are compressed and counted, and the rest is
left. -/
theorem updateBlocks_spec
    (s : Md4State) (data : List UInt8) :
  (s.updateBlocks data).1.words = (s.compressBlocks (data.length / 64) data).words ∧
    (s.updateBlocks data).1.totalN = s.totalN + UInt32.ofNat (512 * (data.length / 64)) ∧
    (s.updateBlocks data).2 = data.drop (64 * (data.length / 64))
  := by
  fun_induction updateBlocks s data with
  | case1 s data h ih =>
      obtain ⟨hwords, hn, hrest⟩ := ih
      have hdiv : data.length / 64 = (data.drop 64).length / 64 + 1 := by
        rw [List.length_drop]
        omega
      refine ⟨?_, ?_, ?_⟩
      · rw [hwords, hdiv, compressBlocks]
        apply words_compressBlocks
        apply words_updateBlock
      · rw [hn, totalN_updateBlock, hdiv, Nat.mul_add, Nat.add_comm, UInt32.ofNat_add,
          UInt32.add_assoc]
        rfl
      · rw [hrest, List.drop_drop, hdiv]
        congr 1
        omega
  | case2 s data h =>
      have hdiv : data.length / 64 = 0 := by omega
      rw [hdiv]
      refine ⟨rfl, ?_, rfl⟩
      rw [Nat.mul_zero]
      exact (UInt32.add_zero _).symm

/-! ### The last block -/

/-- The bit count after the bytes of the last block. -/
theorem toNat_bitCount
    {n k : ℕ} (h : 64 * n + k < 536870912) :
  ((0 : UInt32) + UInt32.ofNat (512 * n) + UInt32.ofNat k <<< 3).toNat = 8 * (64 * n + k)
  := by
  rw [UInt32.zero_add, UInt32.toNat_add, UInt32.toNat_shiftLeft, UInt32.toNat_ofNat',
    UInt32.toNat_ofNat']
  simp only [UInt32.reduceToNat, Nat.shiftLeft_eq, Nat.reduceMod, Nat.reducePow]
  omega

/-- A count that fits in 32 bits has an upper word of zeros. -/
theorem leBytes_eight
    {n : ℕ} (h : n < 4294967296) :
  leBytes 8 (n : ℤ) = leBytes 4 n ++ [0, 0, 0, 0]
  := by
  have hzero : (n : ℤ) / 256 / 256 / 256 / 256 = 0 := by omega
  simp only [leBytes, hzero, List.cons_append, List.nil_append]
  rfl

/-- Bytes that leave room for the count in their block are padded to one block. -/
theorem finalizeTail_short
    (s : Md4State) {rest : List UInt8} (h : rest.length ≤ 55) {count : ℕ}
    (hcount : (s.totalN + UInt32.ofNat rest.length <<< 3).toNat = count) :
  s.finalizeTail rest false =
    (s.compressBlocks 1 (rest ++ [0x80] ++ List.replicate (55 - rest.length) 0 ++
      (leBytes 4 count ++ [0, 0, 0, 0]))).resultRaw
  := by
  have hzeros : 56 - (rest ++ [0x80]).length = 55 - rest.length := by
    rw [List.length_append, List.length_singleton]
    omega
  unfold finalizeTail
  dsimp only
  rw [if_pos h, hcount, hzeros, if_neg Bool.false_ne_true]
  apply resultRaw_eq_of_words
  rw [compressBlocks, compressBlocks, List.take_of_length_le]
  · apply words_compress
    rfl
  · simp
    omega

/-- Other bytes are padded to two blocks. -/
theorem finalizeTail_long
    (s : Md4State) {rest : List UInt8} (h : 55 < rest.length) (h' : rest.length < 64)
    {count : ℕ} (hcount : (s.totalN + UInt32.ofNat rest.length <<< 3).toNat = count) :
  s.finalizeTail rest false =
    (s.compressBlocks 2 (rest ++ [0x80] ++ List.replicate (119 - rest.length) 0 ++
      (leBytes 4 count ++ [0, 0, 0, 0]))).resultRaw
  := by
  have hzeros : 120 - (rest ++ [0x80]).length = 119 - rest.length := by
    rw [List.length_append, List.length_singleton]
    omega
  unfold finalizeTail
  dsimp only
  rw [if_neg (by omega), hcount, hzeros, if_neg Bool.false_ne_true]
  apply resultRaw_eq_of_words
  rw [compressBlocks, compressBlocks, compressBlocks, List.take_of_length_le (l := List.drop 64 _)]
  · apply words_compress
    apply words_compress
    rfl
  · simp
    omega

end Md4State

theorem length_md4Padded
    (data : List UInt8) :
  (md4Padded data).length =
    64 * (data.length / 64) + if data.length % 64 ≤ 55 then 64 else 128
  := by
  unfold md4Padded
  simp only [List.length_append, List.length_replicate, length_leBytes, List.length_singleton]
  split
  · omega
  · omega

/-- The standard digest, with the full blocks of the data apart. -/
theorem md4Standard_eq
    (data : List UInt8) :
  md4Standard data =
    ((Md4State.compressBlocks {} (data.length / 64) data).compressBlocks
      (if data.length % 64 ≤ 55 then 1 else 2)
      (data.drop (64 * (data.length / 64)) ++ [0x80] ++
        List.replicate ((119 - data.length % 64) % 64) 0 ++
        leBytes 8 (8 * data.length))).resultRaw
  := by
  have hblocks : (md4Padded data).length / 64 =
      data.length / 64 + if data.length % 64 ≤ 55 then 1 else 2 := by
    rw [length_md4Padded]
    split
    · omega
    · omega
  have hle : 64 * (data.length / 64) ≤ data.length := Nat.mul_div_le _ _
  rw [md4Standard, hblocks, Md4State.compressBlocks_add, md4Padded, List.append_assoc,
    List.append_assoc, Md4State.compressBlocks_append _ hle,
    List.drop_append_of_le_length hle, List.append_assoc, List.append_assoc]

/-- The classic digest is the standard one of data whose last block is not full, and the
chaining words of data whose last block is. -/
theorem md4Classic_standard
    (data : List UInt8) :
  (data.length < 2 ^ 29 → data.length % 64 ≠ 0 → md4Classic data = md4Standard data) ∧
    (data.length % 64 = 0 →
      md4Classic data = (Md4State.compressBlocks {} (data.length / 64) data).resultRaw)
  := by
  obtain ⟨hwords, hcount, hrest⟩ := Md4State.updateBlocks_spec {} data
  have hlen : (data.drop (64 * (data.length / 64))).length = data.length % 64 := by
    rw [List.length_drop]
    omega
  unfold md4Classic
  generalize Md4State.updateBlocks {} data = r at hwords hcount hrest
  obtain ⟨s, rest⟩ := r
  dsimp only at hwords hcount hrest ⊢
  subst hrest
  constructor
  · intro hlt hmod
    have hne : data.drop (64 * (data.length / 64)) ≠ [] := by
      intro hnil
      rw [hnil] at hlen
      exact hmod hlen.symm
    have hbits : (s.totalN + UInt32.ofNat (data.drop (64 * (data.length / 64))).length <<<
        3).toNat = 8 * data.length := by
      rw [hcount, hlen, Md4State.toNat_bitCount (by omega)]
      omega
    have hcast : ((8 * data.length : ℕ) : ℤ) = 8 * data.length := by push_cast; rfl
    rw [if_neg hne, md4Standard_eq, ← hcast, Md4State.leBytes_eight (by omega)]
    by_cases hshort : data.length % 64 ≤ 55
    · have hzeros : (119 - data.length % 64) % 64 = 55 - data.length % 64 := by omega
      rw [Md4State.finalizeTail_short s (by rw [hlen]; exact hshort) hbits, if_pos hshort,
        hzeros, hlen]
      apply Md4State.resultRaw_eq_of_words
      apply Md4State.words_compressBlocks hwords
    · have hzeros : (119 - data.length % 64) % 64 = 119 - data.length % 64 := by omega
      rw [Md4State.finalizeTail_long s (by omega) (by omega) hbits, if_neg hshort, hzeros,
        hlen]
      apply Md4State.resultRaw_eq_of_words
      apply Md4State.words_compressBlocks hwords
  · intro hmod
    rw [hmod] at hlen
    rw [if_pos (List.eq_nil_of_length_eq_zero hlen)]
    apply Md4State.resultRaw_eq_of_words hwords

theorem md4Classic_standard_abc :
  md4Classic [0x61, 0x62, 0x63] = md4Standard [0x61, 0x62, 0x63]
  := (md4Classic_standard [0x61, 0x62, 0x63]).1 (by decide) (by decide)

example : md4Standard [0x61, 0x62, 0x63] =
    [0xa4, 0x48, 0x01, 0x7a, 0xaf, 0x21, 0xd8, 0x52,
      0x5f, 0xc1, 0x0a, 0xe8, 0x7a, 0xa6, 0x72, 0x9d] := by decide +kernel
