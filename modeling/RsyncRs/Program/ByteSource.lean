import Mathlib.Data.List.Basic
import Mathlib.Tactic.Ring

/-!
# Sources of bytes that read short

A reader may deliver fewer bytes than it is asked for. How many is not known in advance, so a
source carries the sizes of the deliveries to come beside the bytes. `readExact` reads until
it has all it needs, and its outcome does not depend on the sizes.
-/

/-- The bytes that a reader still has, and bounds on the sizes of its next deliveries. -/
structure ByteSource where
  /-- What is still to be delivered. -/
  bytes : List UInt8
  /-- Bounds on the deliveries, the next one first; later ones are as large as they can be. -/
  sizes : List ℕ := []
deriving DecidableEq, Repr

namespace ByteSource

/-- How many bytes one read of at most `n` bytes delivers: at least one, unless the source is
at its end or none was asked for. -/
def delivery (src : ByteSource) (n : ℕ) : ℕ :=
  min (max 1 (src.sizes.headD n)) (min n src.bytes.length)

/-- What is left after a delivery of `k` bytes. -/
def advance (src : ByteSource) (k : ℕ) : ByteSource where
  bytes := src.bytes.drop k
  sizes := src.sizes.tail

/-- One read into a buffer of `n` bytes. -/
def read (src : ByteSource) (n : ℕ) : List UInt8 × ByteSource :=
  (src.bytes.take (src.delivery n), src.advance (src.delivery n))

@[simp]
theorem bytes_advance
    (src : ByteSource) (k : ℕ) :
  (src.advance k).bytes = src.bytes.drop k
  := rfl

theorem delivery_le
    (src : ByteSource) (n : ℕ) :
  src.delivery n ≤ n
  := by
  unfold delivery
  omega

theorem delivery_le_length
    (src : ByteSource) (n : ℕ) :
  src.delivery n ≤ src.bytes.length
  := by
  unfold delivery
  omega

theorem delivery_eq_zero_iff
    (src : ByteSource) (n : ℕ) :
  src.delivery n = 0 ↔ n = 0 ∨ src.bytes = []
  := by
  rw [← List.length_eq_zero_iff]
  unfold delivery
  omega

@[simp]
theorem length_take_delivery
    (src : ByteSource) (n : ℕ) :
  (src.bytes.take (src.delivery n)).length = src.delivery n
  := List.length_take_of_le (src.delivery_le_length n)

/-- Read until the buffer of `n` bytes is full; `none` when the source ends before. -/
def readExact (src : ByteSource) (n : ℕ) : Option (List UInt8) × ByteSource :=
  if n = 0 then
    (some [], src)
  else if src.delivery n = 0 then
    (none, src.advance 0)
  else
    let (rest, src') := (src.advance (src.delivery n)).readExact (n - src.delivery n)
    (rest.map (src.bytes.take (src.delivery n) ++ ·), src')
termination_by n
decreasing_by omega

/-- A source that has enough bytes fills the buffer, whatever the sizes of its deliveries. -/
theorem readExact_of_le
    {src : ByteSource} {n : ℕ} (h : n ≤ src.bytes.length) :
  ∃ sizes, src.readExact n = (some (src.bytes.take n), ⟨src.bytes.drop n, sizes⟩)
  := by
  induction n using Nat.strong_induction_on generalizing src with
  | h n ih =>
      rw [readExact]
      by_cases hn : n = 0
      · exact ⟨src.sizes, by simp [hn]⟩
      · have hd : src.delivery n ≠ 0 := by
          rw [ne_eq, delivery_eq_zero_iff, ← List.length_eq_zero_iff]
          omega
        have hle := src.delivery_le n
        have henough : n - src.delivery n ≤ (src.advance (src.delivery n)).bytes.length := by
          rw [bytes_advance, List.length_drop]
          omega
        obtain ⟨sizes, hrest⟩ := ih (n - src.delivery n) (by omega) henough
        use sizes
        rw [if_neg hn, if_neg hd, hrest]
        simp only [bytes_advance, Option.map_some, List.drop_drop, Nat.add_sub_cancel' hle]
        rw [← List.take_add, Nat.add_sub_cancel' hle]

/-- A source that has too few bytes is read to its end. -/
theorem readExact_of_lt
    {src : ByteSource} {n : ℕ} (h : src.bytes.length < n) :
  ∃ sizes, src.readExact n = (none, ⟨[], sizes⟩)
  := by
  induction n using Nat.strong_induction_on generalizing src with
  | h n ih =>
      rw [readExact, if_neg (by omega)]
      by_cases hd : src.delivery n = 0
      · have hnil : src.bytes = [] := by
          rw [delivery_eq_zero_iff] at hd
          rcases hd with hd | hd
          · omega
          · apply hd
        exact ⟨src.sizes.tail, by simp [hd, advance, hnil]⟩
      · have hle := src.delivery_le_length n
        have hshort : (src.advance (src.delivery n)).bytes.length < n - src.delivery n := by
          rw [bytes_advance, List.length_drop]
          omega
        obtain ⟨sizes, hrest⟩ := ih (n - src.delivery n) (by omega) hshort
        use sizes
        rw [if_neg hd, hrest]
        rfl

end ByteSource
