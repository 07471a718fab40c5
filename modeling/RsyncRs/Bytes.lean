import Mathlib.Data.Int.ModEq
import Mathlib.Tactic.Ring
import Mathlib.Tactic.LinearCombination

/-!
# Machine integers and their bytes

A signed machine integer is an integer in its range; `wrapI32` and `wrapI64` bring the
result of an operation back into it. `leBytes` and `ofLeBytes` are the little-endian bytes
of an integer in two's complement and the number that bytes denote.
-/

/-! ### Ranges -/

/-- The integer is a value of the signed 32-bit type. -/
def IsI32 (x : ℤ) : Prop :=
  -2147483648 ≤ x ∧ x < 2147483648

instance (x : ℤ) : Decidable (IsI32 x) :=
  inferInstanceAs (Decidable (_ ∧ _))

/-- The integer is a value of the signed 64-bit type. -/
def IsI64 (x : ℤ) : Prop :=
  -9223372036854775808 ≤ x ∧ x < 9223372036854775808

instance (x : ℤ) : Decidable (IsI64 x) :=
  inferInstanceAs (Decidable (_ ∧ _))

/-- The signed 32-bit integer with the low 32 bits of `x`. -/
def wrapI32 (x : ℤ) : ℤ :=
  (x + 2147483648) % 4294967296 - 2147483648

/-- The signed 64-bit integer with the low 64 bits of `x`. -/
def wrapI64 (x : ℤ) : ℤ :=
  (x + 9223372036854775808) % 18446744073709551616 - 9223372036854775808

/-- The unsigned 32-bit integer with the low 32 bits of `x`. -/
def asU32 (x : ℤ) : ℕ :=
  (x % 4294967296).toNat

/-- The unsigned 64-bit integer with the low 64 bits of `x`. -/
def asUsize (x : ℤ) : ℕ :=
  (x % 18446744073709551616).toNat

theorem isI32_wrapI32
    (x : ℤ) :
  IsI32 (wrapI32 x)
  := by
  unfold IsI32 wrapI32
  omega

theorem wrapI32_of_isI32
    {x : ℤ} (h : IsI32 x) :
  wrapI32 x = x
  := by
  unfold IsI32 at h
  unfold wrapI32
  omega

theorem wrapI32_emod
    (x : ℤ) :
  wrapI32 (x % 4294967296) = wrapI32 x
  := by
  unfold wrapI32
  omega

theorem wrapI64_of_isI64
    {x : ℤ} (h : IsI64 x) :
  wrapI64 x = x
  := by
  unfold IsI64 at h
  unfold wrapI64
  omega

theorem wrapI64_emod
    (x : ℤ) :
  wrapI64 (x % 18446744073709551616) = wrapI64 x
  := by
  unfold wrapI64
  omega

theorem asUsize_of_nonneg
    {x : ℤ} (h₀ : 0 ≤ x) (h : x < 18446744073709551616) :
  asUsize x = x.toNat
  := by
  unfold asUsize
  rw [Int.emod_eq_of_lt h₀ h]

/-! ### Little-endian bytes -/

/-- The low `n` bytes of `x` in two's complement, the least significant first. -/
def leBytes : ℕ → ℤ → List UInt8
  | 0, _ => []
  | n + 1, x => UInt8.ofNat (x % 256).toNat :: leBytes n (x / 256)

/-- The number whose bytes are these, the least significant first. -/
def ofLeBytes : List UInt8 → ℕ
  | [] => 0
  | b :: bs => b.toNat + 256 * ofLeBytes bs

@[simp]
theorem length_leBytes
    (n : ℕ) (x : ℤ) :
  (leBytes n x).length = n
  := by
  induction n generalizing x with
  | zero => rfl
  | succ n ih => simp [leBytes, ih]

/-- The remainder by a product, digit by digit. -/
theorem Int.emod_mul_eq
    (x : ℤ) {a b : ℤ} (ha : 0 ≤ a) :
  x % (a * b) = x % a + a * (x / a % b)
  := by
  have h₁ := Int.emod_add_mul_ediv x (a * b)
  have h₂ := Int.emod_add_mul_ediv x a
  have h₃ := Int.emod_add_mul_ediv (x / a) b
  rw [Int.ediv_ediv_of_nonneg ha] at h₃
  linear_combination h₁ - h₂ - a * h₃

theorem ofLeBytes_leBytes
    (n : ℕ) (x : ℤ) :
  (ofLeBytes (leBytes n x) : ℤ) = x % 256 ^ n
  := by
  induction n generalizing x with
  | zero => simp [leBytes, ofLeBytes]
  | succ n ih =>
      have hb : (UInt8.ofNat (x % 256).toNat).toNat = (x % 256).toNat := by
        rw [UInt8.toNat_ofNat_of_lt']
        simp only [UInt8.size]
        omega
      have hx : ((x % 256).toNat : ℤ) = x % 256 := by omega
      rw [leBytes, ofLeBytes, hb]
      push_cast
      rw [hx, ih, pow_succ', Int.emod_mul_eq x (by norm_num)]

theorem ofLeBytes_lt
    (bs : List UInt8) :
  ofLeBytes bs < 256 ^ bs.length
  := by
  induction bs with
  | nil => simp [ofLeBytes]
  | cons b bs ih =>
      have hb : b.toNat < 256 := b.toNat_lt
      rw [ofLeBytes, List.length_cons, pow_succ]
      omega

/-- Reading the four bytes of a signed 32-bit integer gives it back. -/
theorem wrapI32_ofLeBytes_leBytes
    {x : ℤ} (h : IsI32 x) :
  wrapI32 (ofLeBytes (leBytes 4 x)) = x
  := by
  rw [ofLeBytes_leBytes]
  norm_num
  rw [wrapI32_emod, wrapI32_of_isI32 h]

/-- Reading the eight bytes of a signed 64-bit integer gives it back. -/
theorem wrapI64_ofLeBytes_leBytes
    {x : ℤ} (h : IsI64 x) :
  wrapI64 (ofLeBytes (leBytes 8 x)) = x
  := by
  rw [ofLeBytes_leBytes]
  norm_num
  rw [wrapI64_emod, wrapI64_of_isI64 h]

/-- The bytes of a string whose characters are below 256. -/
def bytesOf (s : String) : List UInt8 :=
  s.toList.map fun c => UInt8.ofNat c.toNat
