import RsyncRs.Checksum.Rolling
import Mathlib.Algebra.BigOperators.Fin
import Mathlib.Data.List.GetD

/-!
# What the rolling checksum computes

A window that has slid through the data has the checksum of the bytes that are in it now.
The checksum of a block is made of the plain sum and of the weighted sum of its signed
bytes, each modulo `2 ^ 16`.
-/

/-! ### A window that slides through the data -/

/-- The state after the window of `k` bytes at the head of the data has moved by `i`
places. -/
def RollingChecksum.slideTo (data : List UInt8) (k : ℕ) : ℕ → RollingChecksum
  | 0 => RollingChecksum.init (data.take k)
  | i + 1 => (slideTo data k i).roll (data.getD i 0) (data.getD (i + k) 0)

/-- A window with its first byte apart. -/
theorem window_head
    {data : List UInt8} {k i : ℕ} (hi : i + (k + 1) ≤ data.length) :
  (data.drop i).take (k + 1) = data.getD i 0 :: (data.drop (i + 1)).take k
  := by
  have hlt : i < data.length := by omega
  rw [List.drop_eq_getElem_cons hlt, List.take_succ_cons, List.getD_eq_getElem _ _ hlt]

/-- A window with its last byte apart. -/
theorem window_last
    {data : List UInt8} {k i : ℕ} (hi : i + (k + 1) ≤ data.length) :
  (data.drop i).take (k + 1) = (data.drop i).take k ++ [data.getD (i + k) 0]
  := by
  have hlt : i + k < data.length := by omega
  rw [List.take_add_one, List.getElem?_drop, List.getElem?_eq_getElem hlt,
    List.getD_eq_getElem _ _ hlt]
  rfl

/-- The state holds the sums of the window, wherever the window is. -/
theorem RollingChecksum.tracks_slideTo
    {data : List UInt8} {k i : ℕ} (hk : 1 ≤ k) (hi : i + k ≤ data.length) :
  (slideTo data k i).Tracks ((data.drop i).take k)
  := by
  obtain ⟨m, rfl⟩ := Nat.exists_eq_succ_of_ne_zero (Nat.ne_of_gt hk)
  induction i with
  | zero => apply tracks_init
  | succ i ih =>
      have htracks := ih (by omega)
      rw [window_head (by omega)] at htracks
      rw [window_last hi]
      have hnext := htracks.roll (data.getD (i + (m + 1)) 0)
      have hidx : i + 1 + m = i + (m + 1) := by omega
      rw [hidx]
      apply hnext

/-! ### The sums as numbers -/

/-- The value of a byte that is read as a signed number. -/
def signedByte (b : UInt8) : ℤ :=
  b.toInt8.toInt

/-- The sum of the signed bytes. -/
def byteSum (data : List UInt8) : ℤ :=
  ∑ i : Fin data.length, signedByte (data.get i)

/-- The sum of the signed bytes, each weighted by the number of bytes from it to the end. -/
def weightedSum (data : List UInt8) : ℤ :=
  ∑ i : Fin data.length, ((data.length : ℤ) - i) * signedByte (data.get i)

theorem byteSum_cons
    (b : UInt8) (bs : List UInt8) :
  byteSum (b :: bs) = signedByte b + byteSum bs
  := by
  unfold byteSum
  simp [Fin.sum_univ_succ]

theorem weightedSum_cons
    (b : UInt8) (bs : List UInt8) :
  weightedSum (b :: bs) = (bs.length + 1) * signedByte b + weightedSum bs
  := by
  unfold weightedSum
  simp [Fin.sum_univ_succ]

theorem signExtend_eq
    (b : UInt8) :
  signExtend b = UInt32.ofInt (signedByte b)
  := by
  rw [signExtend, signedByte, ← Int32.ofInt_int8ToInt]
  apply UInt32.toNat_inj.mp
  have hword : ∀ z : ℤ, (Int32.ofInt z).toUInt32.toNat = (BitVec.ofInt 32 z).toNat :=
    fun z => rfl
  rw [hword, BitVec.toNat_ofInt, UInt32.ofInt, UInt32.toNat_ofNat']
  omega

/-- The two sums of a block are those of its signed bytes. -/
theorem scalarSums_zero
    (data : List UInt8) :
  scalarSums 0 0 data = (UInt32.ofInt (byteSum data), UInt32.ofInt (weightedSum data))
  := by
  induction data with
  | nil => rfl
  | cons b bs ih =>
      rw [scalarSums, scalarSums_eq, ih, byteSum_cons, weightedSum_cons, signExtend_eq]
      have hlen : UInt32.ofInt (bs.length : ℤ) = UInt32.ofNat bs.length := by
        apply UInt32.toNat_inj.mp
        rw [UInt32.ofInt, UInt32.toNat_ofNat', UInt32.toNat_ofNat']
        omega
      simp only [UInt32.ofInt_add, UInt32.ofInt_mul, UInt32.ofInt_one, hlen]
      ext1
      · grind
      · grind

theorem toNat_ofInt_mod
    (x : ℤ) :
  (((UInt32.ofInt x).toNat % 65536 : ℕ) : ℤ) = x % 65536
  := by
  rw [UInt32.ofInt, UInt32.toNat_ofNat']
  omega

/-! ### Exactness -/

/-- The checksum of a window that has slid is that of the bytes in it, and the checksum of
a block is made of the two sums of its signed bytes. -/
theorem rolling_checksum_exact :
  (∀ (data : List UInt8) (k i : ℕ), 1 ≤ k → i + k ≤ data.length →
    (RollingChecksum.slideTo data k i).value = checksum1 ((data.drop i).take k)) ∧
  ∀ data : List UInt8,
    ((checksum1 data).toNat : ℤ) =
      byteSum data % 2 ^ 16 + 2 ^ 16 * (weightedSum data % 2 ^ 16)
  := by
  constructor
  · intro data k i hk hi
    apply (RollingChecksum.tracks_slideTo hk hi).value_eq
  · intro data
    have h₁ := toNat_ofInt_mod (byteSum data)
    have h₂ := toNat_ofInt_mod (weightedSum data)
    rw [checksum1, unrolledSums_eq, scalarSums_zero, toNat_packSums]
    push_cast at h₁ h₂ ⊢
    rw [h₁, h₂]
    ring

theorem rolling_checksum_exact_signed :
  (RollingChecksum.slideTo [0x80, 0x01, 0xff, 0x7f] 2 2).value = checksum1 [0xff, 0x7f]
  := rolling_checksum_exact.1 [0x80, 0x01, 0xff, 0x7f] 2 2 (by decide) (by decide)

example : checksum1 [0x68, 0x65, 0x6c, 0x6c, 0x6f, 0x20, 0x77, 0x6f, 0x72, 0x6c, 0x64] =
    0x1a00045c := by decide
