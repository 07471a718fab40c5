import Mathlib.Data.List.GetD
import RsyncRs.Io.Varint

/-!
# Integers of variable width are read back

An integer of variable width starts with a marker byte. The leading ones of the marker tell
how many bytes follow, and the highest byte of the integer may be put below them.
-/

variable {X : Type} {Reply : X → Type} {H : Type}
  {answer : H → (x : X) → Option (Reply x × H)}

/-! ### Bytes that count -/

theorem significant_le
    (bs : List UInt8) (least n : ℕ) :
  significant bs least n ≤ n
  := by
  induction n with
  | zero => rw [significant]
  | succ n ih =>
      rw [significant]
      split
      · omega
      · rfl

theorem le_significant
    (bs : List UInt8) {least n : ℕ} (h : least ≤ n) :
  least ≤ significant bs least n
  := by
  induction n with
  | zero => omega
  | succ n ih =>
      rw [significant]
      split
      · next hs =>
        apply ih
        omega
      · apply h

/-- Zeros at the end make no difference to a number. -/
theorem ofLeBytes_append_zero
    (bs : List UInt8) :
  ofLeBytes (bs ++ [0]) = ofLeBytes bs
  := by
  induction bs with
  | nil => rfl
  | cons b bs ih => rw [List.cons_append, ofLeBytes, ih, ofLeBytes]

/-- The bytes that count determine the number. -/
theorem ofLeBytes_take_significant
    (bs : List UInt8) (least : ℕ) {n : ℕ} (hn : n ≤ bs.length) :
  ofLeBytes (bs.take (significant bs least n)) = ofLeBytes (bs.take n)
  := by
  induction n with
  | zero => rw [significant]
  | succ n ih =>
      rw [significant]
      split
      · next hs =>
        rw [ih (by omega), List.take_succ_eq_append_getElem (by omega)]
        have hz : bs[n] = 0 := by
          rw [← hs.2, List.getD_eq_getElem bs 0 (by omega)]
        rw [hz, ofLeBytes_append_zero]
      · rfl

/-! ### Marker bytes -/

/-- The marker of an integer whose `k` bytes beyond the least follow it, the highest of them
being too large to be put into the marker. -/
theorem extraBytes_full
    {k : ℕ} (hk : k < 6) :
  extraBytes (~~~((1 <<< UInt8.ofNat (7 - k)) - 1)) = k + 1 ∧
    markerBits (~~~((1 <<< UInt8.ofNat (7 - k)) - 1)) (k + 1) = 0
  := by
  have key : ∀ k < 6, extraBytes (~~~((1 <<< UInt8.ofNat (7 - k)) - 1)) = k + 1 ∧
      markerBits (~~~((1 <<< UInt8.ofNat (7 - k)) - 1)) (k + 1) = 0 := by
    decide
  apply key k hk

/-- The marker of an integer whose highest byte `b` is put into the marker. -/
theorem extraBytes_marked
    {k : ℕ} (hk : k < 6) {b : UInt8} (hb : b < 1 <<< UInt8.ofNat (7 - k)) :
  extraBytes (if 0 < k then b ||| ~~~((1 <<< UInt8.ofNat (7 - k)) * 2 - 1) else b) = k ∧
    (0 < k → markerBits (b ||| ~~~((1 <<< UInt8.ofNat (7 - k)) * 2 - 1)) k = b)
  := by
  have key : ∀ k < 6, ∀ x : Fin 256, UInt8.ofNat x < 1 <<< UInt8.ofNat (7 - k) →
      extraBytes (if 0 < k then UInt8.ofNat x ||| ~~~((1 <<< UInt8.ofNat (7 - k)) * 2 - 1)
        else UInt8.ofNat x) = k ∧
      (0 < k → markerBits (UInt8.ofNat x ||| ~~~((1 <<< UInt8.ofNat (7 - k)) * 2 - 1)) k =
        UInt8.ofNat x) := by
    decide +kernel
  have h := key k hk ⟨b.toNat, b.toNat_lt⟩
  rw [UInt8.ofNat_toNat] at h
  apply h hb

/-! ### Marked bytes -/

/-- What follows the marker of `bs` and what is in the marker give the number back. -/
theorem markedBytes_spec
    (bs : List UInt8) (least : ℕ) (hl : 0 < least) (hle : least ≤ bs.length)
    (hk : bs.length < least + 6) :
  ∃ ch rest, markedBytes bs (significant bs least bs.length)
      (1 <<< UInt8.ofNat (7 + least - significant bs least bs.length)) least = ch :: rest ∧
    rest.length = least - 1 + extraBytes ch ∧ rest.length ≤ bs.length ∧
    (extraBytes ch = 0 → ofLeBytes (rest ++ [ch]) = ofLeBytes bs ∧
      rest.length < bs.length) ∧
    (0 < extraBytes ch → ofLeBytes ((rest ++ [markerBits ch (extraBytes ch)]).take bs.length) =
      ofLeBytes bs)
  := by
  have h₁ := significant_le bs least bs.length
  have h₂ := le_significant bs hle
  have hval := ofLeBytes_take_significant bs least (le_refl bs.length)
  rw [List.take_length] at hval
  generalize hcnt : significant bs least bs.length = cnt at *
  obtain ⟨k, rfl⟩ := Nat.exists_eq_add_of_le h₂
  have hshift : 7 + least - (least + k) = 7 - k := by omega
  have htop : bs.getD (least + k - 1) 0 = bs[least + k - 1] :=
    List.getD_eq_getElem bs 0 (by omega)
  have htake : bs.take (least + k) = bs.take (least + k - 1) ++ [bs[least + k - 1]] := by
    rw [← List.take_succ_eq_append_getElem (by omega)]
    congr 1
    omega
  rw [markedBytes, hshift, htop]
  by_cases hb : 1 <<< UInt8.ofNat (7 - k) ≤ bs[least + k - 1]
  · obtain ⟨hextra, hbits⟩ := extraBytes_full (show k < 6 by omega)
    rw [if_pos hb]
    refine ⟨_, _, rfl, ?_, ?_, ?_, ?_⟩
    · rw [hextra, List.length_take]
      omega
    · rw [List.length_take]
      omega
    · intro hz
      omega
    · intro _
      rw [hextra, hbits]
      by_cases hfull : least + k = bs.length
      · rw [hfull, List.take_length, List.take_append_of_le_length (le_refl _),
          List.take_length]
      · rw [List.take_of_length_le, ofLeBytes_append_zero, hval]
        rw [List.length_append, List.length_take, List.length_singleton]
        omega
  · have hlt : bs[least + k - 1] < 1 <<< UInt8.ofNat (7 - k) := UInt8.not_le.mp hb
    obtain ⟨hextra, hbits⟩ := extraBytes_marked (show k < 6 by omega) hlt
    have hlen : (bs.take (least + k - 1)).length = least + k - 1 := by
      rw [List.length_take]
      omega
    rw [if_neg hb]
    by_cases hk0 : 0 < k
    · rw [if_pos (by omega)]
      rw [if_pos hk0] at hextra
      refine ⟨_, _, rfl, ?_, ?_, ?_, ?_⟩
      · rw [hextra, hlen]
        omega
      · omega
      · intro hz
        omega
      · intro _
        rw [hextra, hbits hk0, ← htake, List.take_of_length_le, hval]
        rw [List.length_take]
        omega
    · rw [if_neg (by omega)]
      rw [if_neg hk0] at hextra
      refine ⟨_, _, rfl, ?_, ?_, ?_, ?_⟩
      · rw [hextra, hlen]
        omega
      · omega
      · intro _
        rw [← htake, hval]
        apply And.intro rfl
        omega
      · intro hz
        omega

/-! ### Round trips -/

/-- The bytes of a signed 32-bit integer of variable width. -/
def encodeVarint (x : ℤ) : List UInt8 :=
  markedBytes (leBytes 4 x) (significant (leBytes 4 x) 1 4)
    (1 <<< UInt8.ofNat (8 - significant (leBytes 4 x) 1 4)) 1

/-- The bytes of a signed 64-bit integer of at least `minBytes` bytes. -/
def encodeVarlong (x : ℤ) (minBytes : ℕ) : List UInt8 :=
  markedBytes (leBytes 8 x) (significant (leBytes 8 x) minBytes 8)
    (1 <<< UInt8.ofNat (7 + minBytes - significant (leBytes 8 x) minBytes 8)) minBytes

theorem writes_writeVarint
    (x : ℤ) :
  Proc.Writes answer (writeVarint x : Session Reply Unit) (encodeVarint x) ()
  := writes_writeAll _

theorem writes_writeVarlong
    (x : ℤ) (minBytes : ℕ) :
  Proc.Writes answer (writeVarlong x minBytes : Session Reply Unit) (encodeVarlong x minBytes) ()
  := writes_writeAll _

theorem reads_readVarint
    {x : ℤ} (hx : IsI32 x) :
  Proc.Reads answer (readVarint : Session Reply ℤ) (encodeVarint x) x
  := by
  have hlen : (leBytes 4 x).length = 4 := length_leBytes 4 x
  obtain ⟨ch, rest, hmark, hrest, hle, hzero, hpos⟩ := markedBytes_spec (leBytes 4 x)
    1 (by omega) (by omega) (by omega)
  rw [hlen] at hmark hle hzero hpos
  have henc : encodeVarint x = ch :: rest := hmark
  rw [henc, readVarint]
  apply reads_readByte_bind
  by_cases h0 : extraBytes ch = 0
  · -- the marker is the number
    obtain ⟨hval, hlt⟩ := hzero h0
    have hnil : rest = [] := by
      rw [h0] at hrest
      apply List.length_eq_zero_iff.mp hrest
    rw [hnil, List.nil_append, ofLeBytes, ofLeBytes] at hval
    dsimp only
    rw [if_pos h0, hnil]
    apply Proc.reads_pure_of_eq
    have hx' := wrapI32_ofLeBytes_leBytes hx
    rw [← hval, wrapI32_of_isI32] at hx'
    · rw [← hx']
      simp
    · have hch := ch.toNat_lt
      constructor <;> omega
  · dsimp only
    rw [if_neg h0, if_neg (by omega)]
    apply (reads_readBytes rest (by omega)).bind_nil
    rw [if_neg (by omega)]
    apply Proc.reads_pure_of_eq
    rw [hpos (by omega), wrapI32_ofLeBytes_leBytes hx]

theorem reads_readVarlong
    {minBytes : ℕ} (h₁ : 3 ≤ minBytes) (h₂ : minBytes ≤ 4) {x : ℤ} (hx : IsI64 x) :
  Proc.Reads answer (readVarlong minBytes : Session Reply ℤ) (encodeVarlong x minBytes) x
  := by
  have hlen : (leBytes 8 x).length = 8 := length_leBytes 8 x
  obtain ⟨ch, rest, hmark, hrest, hle, hzero, hpos⟩ := markedBytes_spec (leBytes 8 x)
    minBytes (by omega) (by omega) (by omega)
  rw [hlen] at hmark hle hzero hpos
  have henc : encodeVarlong x minBytes = (ch :: rest.take (minBytes - 1)) ++
      rest.drop (minBytes - 1) := by
    rw [List.cons_append, List.take_append_drop]
    apply hmark
  rw [henc, readVarlong]
  apply (reads_readBytes (ch :: rest.take (minBytes - 1)) _).bind
  · simp only [List.headD_cons, List.drop_succ_cons, List.drop_zero]
    by_cases h0 : extraBytes ch = 0
    · obtain ⟨hval, hlt⟩ := hzero h0
      have htake : rest.take (minBytes - 1) = rest := by
        apply List.take_of_length_le
        omega
      have hdrop : rest.drop (minBytes - 1) = [] := by
        apply List.drop_of_length_le
        omega
      rw [if_pos h0, hdrop, htake]
      apply Proc.reads_pure_of_eq
      rw [List.take_of_length_le, hval, wrapI64_ofLeBytes_leBytes hx]
      rw [List.length_append, List.length_singleton]
      omega
    · rw [if_neg h0, if_neg (by omega)]
      apply (reads_readBytes (rest.drop (minBytes - 1)) _).bind_nil
      · rw [if_neg (by omega)]
        apply Proc.reads_pure_of_eq
        rw [List.take_append_drop, hpos (by omega), wrapI64_ofLeBytes_leBytes hx]
      · rw [List.length_drop]
        omega
  · rw [List.length_cons, List.length_take]
    omega
