import RsyncRs.Bytes

/-!
# Rolling checksum

The weak checksum of a window of bytes, and its update when the window slides by one byte.
The two sums run modulo `2 ^ 32`; the checksum holds the low half of each.
-/

/-! ### The checksum of a block -/

/-- A byte, read as a signed number, in 32 bits. -/
def signExtend (b : UInt8) : UInt32 :=
  b.toInt8.toInt32.toUInt32

/-- The low halves of the two sums in one word. -/
def packSums (s1 s2 : UInt32) : UInt32 :=
  (s1 &&& (0xffff : UInt32)) ||| (s2 <<< 16)

/-- The two sums continued over a block, byte by byte. -/
def scalarSums (s1 s2 : UInt32) : List UInt8 → UInt32 × UInt32
  | [] => (s1, s2)
  | b :: bs => scalarSums (s1 + signExtend b) (s2 + (s1 + signExtend b)) bs

/-- The two sums continued over a block, four bytes at a time while more than four are
left. -/
def unrolledSums (s1 s2 : UInt32) : List UInt8 → UInt32 × UInt32
  | b0 :: b1 :: b2 :: b3 :: bs =>
    if bs = [] then
      scalarSums s1 s2 [b0, b1, b2, b3]
    else
      let x0 := signExtend b0
      let x1 := signExtend b1
      let x2 := signExtend b2
      let x3 := signExtend b3
      unrolledSums (s1 + x0 + x1 + x2 + x3) (s2 + (4 * (s1 + x0) + 3 * x1 + 2 * x2 + x3)) bs
  | bs => scalarSums s1 s2 bs

/-- The checksum of a block. -/
def checksum1 (data : List UInt8) : UInt32 :=
  packSums (unrolledSums 0 0 data).1 (unrolledSums 0 0 data).2

/-! ### The checksum of a window that slides -/

/-- The sums of the current window. -/
structure RollingChecksum where
  /-- Sum of the bytes. -/
  s1 : UInt32 := 0
  /-- Sum of the partial sums. -/
  s2 : UInt32 := 0
  /-- Number of bytes in the window. -/
  count : UInt32 := 0
deriving DecidableEq, Repr

namespace RollingChecksum

/-- The sums of the window `data`. -/
def init (data : List UInt8) : RollingChecksum :=
  let sum := checksum1 data
  { s1 := sum &&& (0xffff : UInt32), s2 := sum >>> 16, count := UInt32.ofNat data.length }

/-- The sums after `old` has left the window and `new` has entered it. -/
def roll (rc : RollingChecksum) (old new : UInt8) : RollingChecksum :=
  let s1 := rc.s1 - signExtend old + signExtend new
  { rc with s1 := s1, s2 := rc.s2 - rc.count * signExtend old + s1 }

/-- The checksum of the window. -/
def value (rc : RollingChecksum) : UInt32 :=
  packSums rc.s1 rc.s2

end RollingChecksum

/-! ### The sums of a block -/

/-- Taking four bytes at a time makes no difference. -/
theorem unrolledSums_eq
    (s1 s2 : UInt32) (data : List UInt8) :
  unrolledSums s1 s2 data = scalarSums s1 s2 data
  := by
  fun_induction unrolledSums s1 s2 data with
  | case1 s1 s2 b0 b1 b2 b3 => rfl
  | case2 s1 s2 b0 b1 b2 b3 bs hbs x0 x1 x2 x3 ih =>
      rw [ih]
      simp only [scalarSums]
      congr 1
      grind
  | case3 s1 s2 bs => rfl

/-- The sums continued from any start are those from zero, shifted. -/
theorem scalarSums_eq
    (s1 s2 : UInt32) (data : List UInt8) :
  scalarSums s1 s2 data =
    (s1 + (scalarSums 0 0 data).1,
      s2 + UInt32.ofNat data.length * s1 + (scalarSums 0 0 data).2)
  := by
  induction data generalizing s1 s2 with
  | nil => simp [scalarSums]
  | cons b bs ih =>
      rw [scalarSums, ih, scalarSums, ih (0 + signExtend b)]
      simp only [List.length_cons, UInt32.ofNat_add]
      ext1
      · grind
      · grind

/-- The sums of a window that slides by one byte. -/
theorem scalarSums_slide
    (old new : UInt8) (mid : List UInt8) :
  scalarSums 0 0 (mid ++ [new]) =
    ((scalarSums 0 0 (old :: mid)).1 - signExtend old + signExtend new,
      (scalarSums 0 0 (old :: mid)).2 - UInt32.ofNat (mid.length + 1) * signExtend old +
        ((scalarSums 0 0 (old :: mid)).1 - signExtend old + signExtend new))
  := by
  have happ : ∀ (s1 s2 : UInt32) (xs ys : List UInt8), scalarSums s1 s2 (xs ++ ys) =
      scalarSums (scalarSums s1 s2 xs).1 (scalarSums s1 s2 xs).2 ys := by
    intro s1 s2 xs ys
    induction xs generalizing s1 s2 with
    | nil => rfl
    | cons x xs ih => apply ih
  rw [happ, scalarSums, scalarSums, scalarSums, scalarSums_eq (0 + signExtend old)]
  simp only [UInt32.ofNat_add]
  ext1
  · grind
  · grind

/-! ### The low halves of the sums -/

/-- Two words have the same low half. -/
def LowEq (x y : UInt32) : Prop :=
  x * 65536 = y * 65536

theorem LowEq.refl
    (x : UInt32) :
  LowEq x x
  := rfl

theorem LowEq.add
    {x y u v : UInt32} (h₁ : LowEq x y) (h₂ : LowEq u v) :
  LowEq (x + u) (y + v)
  := by
  unfold LowEq at *
  grind

theorem LowEq.sub
    {x y u v : UInt32} (h₁ : LowEq x y) (h₂ : LowEq u v) :
  LowEq (x - u) (y - v)
  := by
  unfold LowEq at *
  grind

theorem shiftLeft_sixteen
    (x : UInt32) :
  x <<< 16 = x * 65536
  := by
  apply UInt32.toNat_inj.mp
  rw [UInt32.toNat_shiftLeft, UInt32.toNat_mul, UInt32.toNat_ofNat]
  simp only [UInt32.reduceToNat]
  rw [Nat.shiftLeft_eq]

theorem and_low
    (x : UInt32) :
  x &&& (0xffff : UInt32) = (x * 65536) >>> 16
  := by
  apply UInt32.toNat_inj.mp
  have h := Nat.and_two_pow_sub_one_eq_mod x.toNat 16
  norm_num at h
  rw [UInt32.toNat_and, UInt32.toNat_shiftRight, UInt32.toNat_mul]
  simp only [UInt32.reduceToNat, Nat.reduceMod, Nat.shiftRight_eq_div_pow, Nat.reducePow]
  rw [h]
  omega

/-- The checksum depends on the low halves of the sums only. -/
theorem packSums_congr
    {s1 s2 t1 t2 : UInt32} (h₁ : LowEq s1 t1) (h₂ : LowEq s2 t2) :
  packSums s1 s2 = packSums t1 t2
  := by
  unfold LowEq at h₁ h₂
  rw [packSums, packSums, and_low, and_low, shiftLeft_sixteen, shiftLeft_sixteen, h₁, h₂]

/-- Words have the same low half when their numbers leave the same remainder. -/
theorem lowEq_of_mod_eq
    {x y : UInt32} (h : x.toNat % 65536 = y.toNat % 65536) :
  LowEq x y
  := by
  apply UInt32.toNat_inj.mp
  rw [UInt32.toNat_mul, UInt32.toNat_mul]
  simp only [UInt32.reduceToNat, Nat.reducePow]
  omega

/-- The checksum as a number. -/
theorem toNat_packSums
    (s1 s2 : UInt32) :
  (packSums s1 s2).toNat = s2.toNat % 65536 * 65536 + s1.toNat % 65536
  := by
  have hand := Nat.and_two_pow_sub_one_eq_mod s1.toNat 16
  have hor := Nat.two_pow_add_eq_or_of_lt (i := 16) (Nat.mod_lt s1.toNat (by norm_num))
    (s2.toNat % 65536)
  norm_num at hand hor
  have hmul : s2.toNat * 65536 % 4294967296 = 65536 * (s2.toNat % 65536) := by omega
  rw [packSums, shiftLeft_sixteen, UInt32.toNat_or, UInt32.toNat_and, UInt32.toNat_mul]
  simp only [UInt32.reduceToNat, Nat.reducePow]
  rw [hand, hmul, Nat.or_comm, ← hor, Nat.mul_comm]

/-- The low half of the checksum is that of the first sum. -/
theorem lowEq_and_packSums
    (s1 s2 : UInt32) :
  LowEq (packSums s1 s2 &&& (0xffff : UInt32)) s1
  := by
  have hand := Nat.and_two_pow_sub_one_eq_mod (packSums s1 s2).toNat 16
  norm_num at hand
  apply lowEq_of_mod_eq
  rw [UInt32.toNat_and]
  simp only [UInt32.reduceToNat]
  rw [hand, toNat_packSums]
  omega

/-- The high half of the checksum is the low half of the second sum. -/
theorem lowEq_shiftRight_packSums
    (s1 s2 : UInt32) :
  LowEq (packSums s1 s2 >>> 16) s2
  := by
  apply lowEq_of_mod_eq
  rw [UInt32.toNat_shiftRight, toNat_packSums]
  simp only [UInt32.reduceToNat, Nat.reduceMod, Nat.shiftRight_eq_div_pow, Nat.reducePow]
  omega

/-! ### The checksum of a window is that of its bytes -/

/-- The state holds the sums of the window `w`. -/
structure RollingChecksum.Tracks (rc : RollingChecksum) (w : List UInt8) : Prop where
  s1_eq : LowEq rc.s1 (scalarSums 0 0 w).1
  s2_eq : LowEq rc.s2 (scalarSums 0 0 w).2
  count_eq : rc.count = UInt32.ofNat w.length

theorem RollingChecksum.tracks_init
    (w : List UInt8) :
  (RollingChecksum.init w).Tracks w
  := by
  constructor
  · rw [← unrolledSums_eq]
    apply lowEq_and_packSums
  · rw [← unrolledSums_eq]
    apply lowEq_shiftRight_packSums
  · rfl

theorem RollingChecksum.Tracks.roll
    {rc : RollingChecksum} {old : UInt8} {mid : List UInt8} (h : rc.Tracks (old :: mid))
    (new : UInt8) :
  (rc.roll old new).Tracks (mid ++ [new])
  := by
  have h₁ : LowEq (rc.s1 - signExtend old + signExtend new)
      ((scalarSums 0 0 (old :: mid)).1 - signExtend old + signExtend new) :=
    (h.s1_eq.sub (LowEq.refl _)).add (LowEq.refl _)
  constructor
  · rw [scalarSums_slide]
    apply h₁
  · rw [scalarSums_slide]
    apply LowEq.add _ h₁
    rw [h.count_eq]
    apply h.s2_eq.sub (LowEq.refl _)
  · rw [List.length_append]
    apply h.count_eq

/-- The checksum of the state is that of the window. -/
theorem RollingChecksum.Tracks.value_eq
    {rc : RollingChecksum} {w : List UInt8} (h : rc.Tracks w) :
  rc.value = checksum1 w
  := by
  rw [checksum1, unrolledSums_eq]
  apply packSums_congr h.s1_eq h.s2_eq
