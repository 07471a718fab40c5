import RsyncRs.Io.Varint
import RsyncRs.Program.Outcome

/-!
# Integers that make a reader panic

The buffers of a reader have five and nine bytes, but a marker byte may announce six bytes
more. A reader of an integer halts on every input, and it panics exactly on a marker that does
not fit.
-/

variable {X : Type} {Reply : X → Type} {H : Type}
  {answer : H → (x : X) → Option (Reply x × H)}

/-- The error is a panic. -/
def Error.IsPanic : Error → Prop
  | .panic _ => True
  | _ => False

/-! ### Markers -/

/-- The bytes start with a marker that may be read where an integer of variable width is
expected: it announces at most four bytes, or five which are not all there. -/
def varintFits : List UInt8 → Bool
  | [] => true
  | ch :: bs => extraBytes ch < 5 ∨ extraBytes ch = 5 ∧ bs.length < 5

/-- The bytes start with a marker that may be read where an integer of at least `minBytes`
bytes is expected: there is room for what it announces, or there is one byte too many and they
are not all there. -/
def varlongFits (minBytes : ℕ) (bs : List UInt8) : Bool :=
  bs.length < minBytes ∨ minBytes - 1 + extraBytes (bs.headD 0) < 9 ∨
    minBytes - 1 + extraBytes (bs.headD 0) = 9 ∧ bs.length < minBytes + extraBytes (bs.headD 0)

theorem extraBytes_le
    (ch : UInt8) :
  extraBytes ch ≤ 6
  := by
  have key : ∀ i : Fin 256, extraBytes (UInt8.ofNat i) ≤ 6 := by
    decide +kernel
  have h := key ⟨ch.toNat, ch.toNat_lt⟩
  rw [UInt8.ofNat_toNat] at h
  apply h

/-! ### Reading bytes -/

theorem avoids_readByte
    (w : Endpoint H UInt8) :
  Proc.Avoids answer true Error.IsPanic (readByte : Session Reply UInt8) w
  := Proc.avoids_read (fun h => h) w

theorem avoids_readBytes
    (n : ℕ) (w : Endpoint H UInt8) :
  Proc.Avoids answer true Error.IsPanic (readBytes n : Session Reply (List UInt8)) w
  := Proc.avoids_readExact (fun h => h) n w

/-- What comes after some bytes that are read, when they are there. -/
theorem after_readBytes_iff
    (n : ℕ) (w : Endpoint H UInt8) (φ : List UInt8 → Endpoint H UInt8 → Prop) :
  Proc.After answer true (readBytes n : Session Reply (List UInt8)) w φ ↔
    (n ≤ w.input.length → φ (w.input.take n) { w with input := w.input.drop n })
  := by
  by_cases hn : n ≤ w.input.length
  · have hread : Proc.Reads answer (readBytes n : Session Reply (List UInt8)) (w.input.take n)
        (w.input.take n) := reads_readBytes _ (List.length_take_of_le hn)
    rw [(hread true w _ (List.take_append_drop n _).symm).after_iff]
    simp [hn]
  · obtain ⟨w', hfails⟩ : ∃ w', Proc.Fails answer true (readBytes n : Session Reply (List UInt8)) w
        .unexpectedEof w' := Proc.fails_readExact _ (not_le.mp hn)
    simp only [hn, false_implies, iff_true]
    apply hfails.after

theorem after_readByte_cons
    {w : Endpoint H UInt8} {b : UInt8} {bs : List UInt8} (hw : w.input = b :: bs)
    (φ : UInt8 → Endpoint H UInt8 → Prop) :
  Proc.After answer true (readByte : Session Reply UInt8) w φ ↔ φ b { w with input := bs }
  := (Proc.returns_read _ b hw).after_iff

theorem after_readByte_nil
    {w : Endpoint H UInt8} (hw : w.input = []) (φ : UInt8 → Endpoint H UInt8 → Prop) :
  Proc.After answer true (readByte : Session Reply UInt8) w φ
  := (Proc.fails_read _ hw).after φ

/-! ### Integers -/

/-- The receiver panics on a marker that does not fit. -/
theorem avoids_readVarint_iff
    (w : Endpoint H UInt8) :
  Proc.Avoids answer true Error.IsPanic (readVarint : Session Reply ℤ) w ↔
    varintFits w.input = true
  := by
  unfold readVarint
  rw [Proc.avoids_bind_iff]
  cases hw : w.input with
  | nil => simp [avoids_readByte, after_readByte_nil hw, varintFits]
  | cons ch bs =>
      have hle := extraBytes_le ch
      rw [after_readByte_cons hw, varintFits, and_iff_right (avoids_readByte w)]
      by_cases h0 : extraBytes ch = 0
      · simp [h0, Proc.avoids_pure]
      by_cases h6 : 5 < extraBytes ch
      · rw [if_neg h0, if_pos h6, Proc.avoids_throw_iff]
        simp [Error.IsPanic]
        omega
      rw [if_neg h0, if_neg h6, Proc.avoids_bind_iff, after_readBytes_iff,
        and_iff_right (avoids_readBytes _ _)]
      by_cases h5 : 5 ≤ extraBytes ch
      · rw [if_pos h5, Proc.avoids_throw_iff]
        simp [Error.IsPanic]
        omega
      · simp [h5, Proc.avoids_pure]
        omega

theorem headD_take
    {bs : List UInt8} {n : ℕ} (hn : 0 < n) (b : UInt8) :
  (bs.take n).headD b = bs.headD b
  := by
  cases n with
  | zero => cases hn
  | succ n =>
      cases bs with
      | nil => rfl
      | cons c bs => rfl

theorem avoids_readVarlong_iff
    {minBytes : ℕ} (hpos : 0 < minBytes) (hmin : minBytes ≤ 9) (w : Endpoint H UInt8) :
  Proc.Avoids answer true Error.IsPanic (readVarlong minBytes : Session Reply ℤ) w ↔
    varlongFits minBytes w.input = true
  := by
  unfold readVarlong varlongFits
  rw [Proc.avoids_bind_iff, after_readBytes_iff, and_iff_right (avoids_readBytes _ _)]
  by_cases hshort : w.input.length < minBytes
  · simp [hshort, not_le.mpr hshort]
  rw [imp_iff_right (not_lt.mp hshort)]
  dsimp only
  rw [headD_take hpos]
  generalize w.input.headD 0 = ch
  by_cases h0 : extraBytes ch = 0
  · simp [h0, Proc.avoids_pure]
    omega
  by_cases h10 : 9 < minBytes - 1 + extraBytes ch
  · rw [if_neg h0, if_pos h10, Proc.avoids_throw_iff]
    simp [Error.IsPanic]
    omega
  rw [if_neg h0, if_neg h10, Proc.avoids_bind_iff, after_readBytes_iff,
    and_iff_right (avoids_readBytes _ _), List.length_drop]
  by_cases h9 : 9 ≤ minBytes - 1 + extraBytes ch
  · rw [if_pos h9, Proc.avoids_throw_iff]
    simp [Error.IsPanic]
    omega
  · simp [h9, Proc.avoids_pure]
    omega

/-- Three bytes and what they announce always fit. -/
theorem varlongFits_three
    (bs : List UInt8) :
  varlongFits 3 bs = true
  := by
  have hle := extraBytes_le (bs.headD 0)
  unfold varlongFits
  apply decide_eq_true
  omega

/-- A computation that failed ends there. -/
theorem lift_bind_error
    {α β : Type} {e : Except Error α} {err : Error} (he : e = .error err)
    (f : α → Session Reply β) :
  (liftM e >>= f) = throw err
  := by
  rw [he]
  rfl

theorem avoids_readInt
    (w : Endpoint H UInt8) :
  Proc.Avoids answer true Error.IsPanic (readInt : Session Reply ℤ) w
  := Proc.avoids_map_iff.mpr (avoids_readBytes 4 w)

/-! ### Every integer comes to an end -/

theorem halts_readByte :
  Proc.Halts answer (readByte : Session Reply UInt8) 1
  := Proc.halts_read _

theorem halts_readBytes
    (n : ℕ) :
  Proc.Halts answer (readBytes n : Session Reply (List UInt8)) 0
  := Proc.halts_readExact _ n

/-- A procedure that goes on with a pure function halts as it did. -/
theorem Proc.Halts.map
    {α β : Type} {p : Session Reply α} {k : ℕ} (h : Proc.Halts answer p k) (f : α → β) :
  Proc.Halts answer (p >>= fun a => pure (f a)) k
  := h.bind fun a => Proc.halts_pure (f a)

theorem halts_lift
    {α : Type} (e : Except Error α) :
  Proc.Halts answer (liftM e : Session Reply α) 0
  := by
  cases e with
  | ok a => exact Proc.halts_pure a
  | error err => exact Proc.halts_throw err 0

theorem halts_readVarint :
  Proc.Halts answer (readVarint : Session Reply ℤ) 1
  := by
  apply halts_readByte.first
  intro ch
  dsimp only
  split_ifs
  · apply Proc.halts_pure
  · apply Proc.halts_throw
  · apply (halts_readBytes _).andThen
    intro bs
    apply Proc.halts_throw
  · apply (halts_readBytes _).map

theorem halts_readVarlong
    (minBytes : ℕ) :
  Proc.Halts answer (readVarlong minBytes : Session Reply ℤ) 0
  := by
  apply (halts_readBytes _).andThen
  intro bs
  dsimp only
  split_ifs
  · apply Proc.halts_pure
  · apply Proc.halts_throw
  · apply (halts_readBytes _).andThen
    intro bs
    apply Proc.halts_throw
  · apply (halts_readBytes _).map

theorem halts_readInt :
  Proc.Halts answer (readInt : Session Reply ℤ) 0
  := (halts_readBytes 4).map _

theorem halts_readVarint_zero :
  Proc.Halts answer (readVarint : Session Reply ℤ) 0
  := halts_readVarint.mono (Nat.zero_le 1)

theorem halts_readByte_zero :
  Proc.Halts answer (readByte : Session Reply UInt8) 0
  := halts_readByte.mono (Nat.zero_le 1)
