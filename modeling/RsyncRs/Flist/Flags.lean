import Mathlib.Data.Nat.Bitwise
import Mathlib.Tactic.IntervalCases
import RsyncRs.Flist.Entry
import RsyncRs.Io.Marked

/-!
# Flags of entries

The flags of an entry reach the receiver as they were sent, and each of them says what it
stands for.
-/

variable {X : Type} {Reply : X → Type} {H : Type}
  {answer : H → (x : X) → Option (Reply x × H)}

/-! ### Single flags -/

theorem hasFlag_one_shiftLeft
    (xflags k : ℕ) :
  hasFlag xflags (1 <<< k) = xflags.testBit k
  := by
  rw [hasFlag, Nat.one_shiftLeft, Nat.and_comm, Nat.two_pow_and]
  cases xflags.testBit k with
  | false => simp
  | true => simp

theorem testBit_flagIf
    (c : Bool) (j k : ℕ) :
  (flagIf c (1 <<< j)).testBit k = (c && decide (j = k))
  := by
  rw [flagIf, Nat.one_shiftLeft]
  cases c <;> simp [Nat.testBit_two_pow]

/-- Bit `k` of the flags that an entry has before they are made fit for the wire. -/
theorem testBit_entryFlags
    (protocol : ℕ) (preserve : Preserve) (prev : Option FileInfo) (fi : FileInfo)
    (same restLen k : ℕ) :
  (entryFlags protocol preserve prev fi same restLen).testBit k =
    ((decide (0 < same) && decide (5 = k)) || (decide (255 < restLen) && decide (6 = k)) ||
      (sameFlags preserve prev fi).testBit k ||
      (decide (fi.modNsec ≠ 0 ∧ 31 ≤ protocol) && decide (13 = k)) ||
      (decide (isHlinkMember fi ∧ 28 ≤ protocol) && decide (9 = k)) ||
      (decide (isHlinkMember fi ∧ 28 ≤ protocol ∧ isHlinkLeader fi ∧ 30 ≤ protocol) &&
        decide (12 = k)) ||
      (isTopDirEntry fi && decide (0 = k)))
  := by
  simp only [entryFlags, xmitSameName, xmitLongName, xmitModNsec, xmitHlinked, xmitHlinkFirst,
    xmitTopDir, Nat.testBit_or, testBit_flagIf]

theorem testBit_sameFlags_some
    (preserve : Preserve) (p fi : FileInfo) (k : ℕ) :
  (sameFlags preserve (some p) fi).testBit k =
    ((decide (fi.mode = p.mode) && decide (1 = k)) ||
      (decide (¬ preserve.times ∨ fi.modtime = p.modtime) && decide (7 = k)) ||
      (decide (¬ preserve.uid ∨ fi.uid = p.uid) && decide (3 = k)) ||
      (decide (¬ preserve.gid ∨ fi.gid = p.gid) && decide (4 = k)))
  := by
  simp only [sameFlags, xmitSameMode, xmitSameTime, xmitSameUid, xmitSameGid, Nat.testBit_or,
    testBit_flagIf]

theorem testBit_sameFlags_none
    (preserve : Preserve) (fi : FileInfo) (k : ℕ) :
  (sameFlags preserve none fi).testBit k =
    ((decide (¬ preserve.times) && decide (7 = k)) || (decide (¬ preserve.uid) && decide (3 = k)) ||
      (decide (¬ preserve.gid) && decide (4 = k)))
  := by
  simp only [sameFlags, xmitSameTime, xmitSameUid, xmitSameGid, Nat.testBit_or, testBit_flagIf]

/-- Bits that no flag uses are not set. -/
theorem testBit_sameFlags_of_ge
    (preserve : Preserve) (prev : Option FileInfo) (fi : FileInfo) {k : ℕ}
    (hk : k ≠ 1 ∧ k ≠ 3 ∧ k ≠ 4 ∧ k ≠ 7) :
  (sameFlags preserve prev fi).testBit k = false
  := by
  obtain ⟨h₁, h₃, h₄, h₇⟩ := hk
  cases prev with
  | none => simp [testBit_sameFlags_none, Ne.symm h₃, Ne.symm h₄, Ne.symm h₇]
  | some p =>
      simp [testBit_sameFlags_some, Ne.symm h₁, Ne.symm h₃, Ne.symm h₄, Ne.symm h₇]

theorem entryFlags_lt
    (protocol : ℕ) (preserve : Preserve) (prev : Option FileInfo) (fi : FileInfo)
    (same restLen : ℕ) :
  entryFlags protocol preserve prev fi same restLen < 2 ^ 14
  := by
  apply Nat.lt_pow_two_of_testBit
  intro k hk
  rw [testBit_entryFlags, testBit_sameFlags_of_ge preserve prev fi (by omega)]
  simp
  omega

/-! ### Flags on the wire -/

/-- The flags on the wire are those of the entry, but for the two that keep them from being
zero. -/
theorem testBit_wireFlags
    (varintFlags isDir : Bool) (xflags : ℕ) {k : ℕ} (h₀ : k ≠ 0) (h₂ : k ≠ 2) :
  (wireFlags varintFlags isDir xflags).testBit k = xflags.testBit k
  := by
  have hk : ∀ j, j = 0 ∨ j = 2 → (1 <<< j).testBit k = false := by
    intro j hj
    rw [Nat.one_shiftLeft, Nat.testBit_two_pow]
    simp
    omega
  unfold wireFlags
  dsimp only
  split_ifs with hv hz hz' hb hb
  · rw [xmitExtendedFlags, hz, hk 2 (.inr rfl), Nat.zero_testBit]
  · rfl
  · rw [Nat.testBit_or, Nat.testBit_or, xmitTopDir, xmitExtendedFlags, hk 0 (.inl rfl),
      hk 2 (.inr rfl), Bool.or_false, Bool.or_false]
  · rw [Nat.testBit_or, xmitTopDir, hk 0 (.inl rfl), Bool.or_false]
  · rw [Nat.testBit_or, xmitExtendedFlags, hk 2 (.inr rfl), Bool.or_false]
  · rfl

theorem wireFlags_ne_zero
    (varintFlags isDir : Bool) (xflags : ℕ) :
  wireFlags varintFlags isDir xflags ≠ 0
  := by
  have hor : ∀ a k : ℕ, a ||| 1 <<< k ≠ 0 := by
    intro a k h
    have hbit := congrArg (Nat.testBit · k) h
    simp [Nat.one_shiftLeft] at hbit
  unfold wireFlags
  dsimp only
  split_ifs with hv hz hz' hb hb
  · decide
  · apply hz
  · apply hor
  · apply hor
  · apply hor
  · intro h
    apply hb (.inr h)

theorem wireFlags_lt
    (varintFlags isDir : Bool) {xflags : ℕ} (h : xflags < 2 ^ 14) :
  wireFlags varintFlags isDir xflags < 2 ^ 14
  := by
  have h₀ : xmitTopDir < 2 ^ 14 := by decide
  have h₂ : xmitExtendedFlags < 2 ^ 14 := by decide
  unfold wireFlags
  dsimp only
  split_ifs with hv hz hz' hb hb
  · apply h₂
  · apply h
  · apply Nat.or_lt_two_pow (Nat.or_lt_two_pow h h₀) h₂
  · apply Nat.or_lt_two_pow h h₀
  · apply Nat.or_lt_two_pow h h₂
  · apply h

/-- Flags without a second byte on the wire fit into one. -/
theorem wireFlags_lt_of_not_extended
    (isDir : Bool) {xflags : ℕ} (h : xflags < 2 ^ 14)
    (he : hasFlag (wireFlags false isDir xflags) xmitExtendedFlags = false) :
  wireFlags false isDir xflags < 2 ^ 8
  := by
  rw [xmitExtendedFlags, hasFlag_one_shiftLeft] at he
  have hlt := wireFlags_lt false isDir h
  apply Nat.lt_pow_two_of_testBit
  intro k hk
  by_cases hk' : 14 ≤ k
  · apply Nat.testBit_lt_two_pow
    apply lt_of_lt_of_le hlt (Nat.pow_le_pow_right (by decide) hk')
  · unfold wireFlags at he ⊢
    dsimp only at he ⊢
    rw [if_neg Bool.false_ne_true] at he ⊢
    generalize hx : (if xflags = 0 ∧ ¬ isDir = true then xflags ||| xmitTopDir else xflags) = x
      at he ⊢
    by_cases hb : x &&& 0xFF00 ≠ 0 ∨ x = 0
    · rw [if_pos hb, Nat.testBit_or, xmitExtendedFlags, Nat.one_shiftLeft,
        Nat.testBit_two_pow_self, Bool.or_true] at he
      cases he
    · rw [if_neg hb]
      obtain ⟨hand, -⟩ := not_or.mp hb
      have hbit := congrArg (Nat.testBit · k) (not_not.mp hand)
      have hmask : Nat.testBit 0xFF00 k = true := by
        have h14 : k < 14 := by omega
        interval_cases k <;> decide
      simpa [Nat.testBit_and, hmask] using hbit

/-- The flags of an entry are not the mark that ends the list. -/
theorem wireFlags_ne_endlist
    (varintFlags isDir : Bool) (protocol : ℕ) (preserve : Preserve) (prev : Option FileInfo)
    (fi : FileInfo) (same restLen : ℕ) :
  wireFlags varintFlags isDir (entryFlags protocol preserve prev fi same restLen) ≠
    xmitExtendedFlags ||| xmitIoErrorEndlist
  := by
  intro h
  have h₉ := congrArg (Nat.testBit · 9) h
  have h₁₂ := congrArg (Nat.testBit · 12) h
  have hmark₉ : Nat.testBit (xmitExtendedFlags ||| xmitIoErrorEndlist) 9 = false := by decide
  have hmark₁₂ : Nat.testBit (xmitExtendedFlags ||| xmitIoErrorEndlist) 12 = true := by decide
  rw [testBit_wireFlags _ _ _ (by decide) (by decide), testBit_entryFlags,
    testBit_sameFlags_of_ge preserve prev fi (by decide), hmark₉] at h₉
  rw [testBit_wireFlags _ _ _ (by decide) (by decide), testBit_entryFlags,
    testBit_sameFlags_of_ge preserve prev fi (by decide), hmark₁₂] at h₁₂
  -- only a member of a group is its first one
  simp at h₉ h₁₂
  have := h₉ h₁₂.1
  omega

/-! ### Flags are read as they were written -/

theorem asU32_wrapI32
    {n : ℕ} (h : n < 4294967296) :
  asU32 (wrapI32 n) = n
  := by
  unfold asU32 wrapI32
  omega

theorem carries_varint
    {x : ℤ} (hx : IsI32 x) :
  Proc.Carries answer (writeVarint x : Session Reply Unit) () readVarint x
  := ⟨_, writes_writeVarint x, reads_readVarint hx⟩

theorem carries_int
    {x : ℤ} (hx : IsI32 x) :
  Proc.Carries answer (writeInt x : Session Reply Unit) () readInt x
  := ⟨_, writes_writeInt x, reads_readInt hx⟩

/-- The two bytes of flags make up the flags. -/
theorem or_shiftLeft_bytes
    (x : ℕ) :
  x % 256 ||| (x / 256) <<< 8 = x
  := by
  rw [Nat.or_comm, Nat.shiftLeft_eq, mul_comm, ← Nat.two_pow_add_eq_or_of_lt
    (show x % 256 < 2 ^ 8 by omega)]
  omega

/-- The flags of an entry reach the receiver. Where they have a second byte the protocol
must know of it. -/
theorem carries_xflags
    (varintFlags isDir : Bool) {protocol xflags : ℕ} (hlt : xflags < 2 ^ 14)
    (hend : wireFlags varintFlags isDir xflags ≠ xmitExtendedFlags ||| xmitIoErrorEndlist)
    (hold : varintFlags = false → protocol < 28 →
      hasFlag (wireFlags varintFlags isDir xflags) xmitExtendedFlags = false) :
  Proc.Carries answer
    (writeXflags varintFlags (wireFlags varintFlags isDir xflags) : Session Reply Unit) ()
    (readXflags protocol varintFlags) (wireFlags varintFlags isDir xflags)
  := by
  have hne := wireFlags_ne_zero varintFlags isDir xflags
  have hw := wireFlags_lt varintFlags isDir hlt
  unfold writeXflags readXflags
  cases varintFlags with
  | true =>
      rw [if_pos rfl, if_pos rfl]
      generalize wireFlags true isDir xflags = x at *
      apply (carries_varint (isI32_wrapI32 x)).map_eq asU32 (asU32_wrapI32 (by omega))
  | false =>
      have hbyte := wireFlags_lt_of_not_extended isDir hlt
      rw [if_neg Bool.false_ne_true, if_neg Bool.false_ne_true]
      generalize wireFlags false isDir xflags = x at *
      by_cases he : hasFlag x xmitExtendedFlags = true
      · -- two bytes
        have hp : 28 ≤ protocol := by
          by_contra hp
          rw [hold rfl (by omega)] at he
          cases he
        have hb : (UInt8.ofNat ((x : ℤ) % 256).toNat).toNat = x % 256 := by
          have := toNat_ofNat_emod (x : ℤ)
          omega
        have hb' : (UInt8.ofNat ((x : ℤ) / 256 % 256).toNat).toNat = x / 256 := by
          have := toNat_ofNat_emod ((x : ℤ) / 256)
          omega
        have hlow : hasFlag (x % 256) xmitExtendedFlags = true := by
          rw [xmitExtendedFlags, hasFlag_one_shiftLeft] at he ⊢
          rw [show (256 : ℕ) = 2 ^ 8 from rfl, Nat.testBit_mod_two_pow, he]
          rfl
        have hb0 : UInt8.ofNat ((x : ℤ) % 256).toNat ≠ 0 := by
          intro hz
          rw [← hb, hz] at hlow
          cases hlow
        rw [if_pos he]
        use leBytes 2 x, writes_writeAll _
        apply reads_readByte_bind
        rw [if_neg hb0, readXflags.readHighFlags, hb, if_pos ⟨hp, hlow⟩]
        have hread : Proc.Reads answer (do
            let b ← readByte
            pure (x % 256 ||| b.toNat <<< 8) : Session Reply ℕ)
            (leBytes 1 ((x : ℤ) / 256)) x := by
          rw [leBytes, leBytes]
          apply reads_readByte_bind
          apply Proc.reads_pure_of_eq
          rw [hb', or_shiftLeft_bytes]
        apply hread.bind_nil
        rw [if_neg hend]
        apply Proc.reads_pure
      · -- one byte
        have hx := hbyte (by simpa using he)
        have hb : (UInt8.ofNat (x &&& 0xFF)).toNat = x := by
          have hand : x &&& 0xFF = x := Nat.and_two_pow_sub_one_of_lt_two_pow hx
          rw [hand, UInt8.toNat_ofNat_of_lt']
          apply hx
        have hb0 : UInt8.ofNat (x &&& 0xFF) ≠ 0 := by
          intro hz
          rw [hz] at hb
          apply hne hb.symm
        rw [if_neg he]
        use [UInt8.ofNat (x &&& 0xFF)], writes_writeAll _
        apply reads_readByte_bind
        rw [if_neg hb0, readXflags.readHighFlags, hb, if_neg (by simp [he])]
        rw [← List.nil_append []]
        apply (Proc.reads_pure x).bind
        rw [if_neg hend]
        apply Proc.reads_pure
