import RsyncRs.Program.Channel
import RsyncRs.Protocol.Types
import RsyncRs.Utf8

/-!
# Integers on the wire

The integers of the protocol as bytes: fixed-width integers, integers of variable length,
file indices, which are coded relative to their predecessors, and short strings.
-/

variable {X : Type} {Reply : X → Type} {H : Type}
  {answer : H → (x : X) → Option (Reply x × H)}

/-- Procedures of the program, whose channel carries bytes. -/
abbrev Session (Reply : X → Type) (α : Type) : Type 1 :=
  Proc UInt8 Reply Error α

/-- A host that is asked nothing. -/
def noHost : Unit → (x : Empty) → Option (Unit × Unit) :=
  fun _ x => x.elim

/-! ### Bytes -/

/-- Read `n` bytes. -/
def readBytes (n : ℕ) : Session Reply (List UInt8) :=
  Proc.readExact .unexpectedEof n

/-- Read one byte. -/
def readByte : Session Reply UInt8 :=
  Proc.read .unexpectedEof

/-- Write all the bytes. -/
def writeAll (bs : List UInt8) : Session Reply Unit :=
  Proc.write .brokenPipe bs

/-- Write one byte. -/
def writeByte (x : UInt8) : Session Reply Unit :=
  writeAll [x]

/-- Flush the output, whether or not the peer takes it. -/
def flushOk : Session Reply Unit := do
  let _ ← Proc.attempt (Proc.flush Error.brokenPipe)
  pure ()

/-- The result of a procedure if it has one. A panic is not caught. -/
def okOrNone {α : Type} (p : Session Reply α) : Session Reply (Option α) := do
  match ← Proc.attempt p with
  | .ok a => pure (some a)
  | .error (.panic m) => throw (.panic m)
  | .error _ => pure none

/-! ### Integers of fixed width -/

/-- Read an unsigned 16-bit integer. -/
def readShortint : Session Reply ℕ := do
  let bs ← readBytes 2
  pure (ofLeBytes bs)

/-- Write an unsigned 16-bit integer. -/
def writeShortint (x : ℕ) : Session Reply Unit :=
  writeAll (leBytes 2 x)

/-- Read a signed 32-bit integer. -/
def readInt : Session Reply ℤ := do
  let bs ← readBytes 4
  pure (wrapI32 (ofLeBytes bs))

/-- Write a signed 32-bit integer. -/
def writeInt (x : ℤ) : Session Reply Unit :=
  writeAll (leBytes 4 x)

/-- Read a signed 64-bit integer of four or twelve bytes. -/
def readLongint : Session Reply ℤ := do
  let num ← readInt
  if num ≠ -1 then
    pure num
  else
    let bs ← readBytes 8
    pure (wrapI64 (ofLeBytes bs))

/-- Write a signed 64-bit integer in four bytes when it is small, otherwise in twelve. -/
def writeLongint (x : ℤ) : Session Reply Unit :=
  if 0 ≤ x ∧ x ≤ 2147483647 then
    writeAll (leBytes 4 x)
  else do
    writeAll [0xFF, 0xFF, 0xFF, 0xFF]
    writeAll (leBytes 8 x)

/-! ### Integers of variable width -/

/-- How many bytes follow a marker byte, by its upper six bits. -/
def intByteExtra : List ℕ :=
  [0, 0, 0, 0, 0, 0, 0, 0, 0, 0, 0, 0, 0, 0, 0, 0,
   0, 0, 0, 0, 0, 0, 0, 0, 0, 0, 0, 0, 0, 0, 0, 0,
   1, 1, 1, 1, 1, 1, 1, 1, 1, 1, 1, 1, 1, 1, 1, 1,
   2, 2, 2, 2, 2, 2, 2, 2, 3, 3, 3, 3, 4, 4, 5, 6]

/-- How many bytes follow the marker byte `ch`. -/
def extraBytes (ch : UInt8) : ℕ :=
  intByteExtra.getD (ch.toNat / 4) 0

/-- The bits of a marker byte below the prefix that announces `extra` bytes. -/
def markerBits (ch : UInt8) (extra : ℕ) : UInt8 :=
  ch &&& ((1 <<< UInt8.ofNat (8 - extra)) - 1)

/-- Read a signed 32-bit integer of variable width. The buffer holds five bytes. -/
def readVarint : Session Reply ℤ := do
  let ch ← readByte
  let extra := extraBytes ch
  if extra = 0 then
    pure ch.toNat
  else if 5 < extra then
    throw (.panic "range end index out of range for slice")
  else
    let bs ← readBytes extra
    if 5 ≤ extra then
      throw (.panic "index out of bounds")
    else
      pure (wrapI32 (ofLeBytes ((bs ++ [markerBits ch extra]).take 4)))

/-- The position of the last byte that is not zero, counted from `n` down to `least`. -/
def significant (bs : List UInt8) (least : ℕ) : ℕ → ℕ
  | 0 => 0
  | n + 1 => if least < n + 1 ∧ bs.getD n 0 = 0 then significant bs least n else n + 1

/-- The bytes of `x` after a marker byte. Of the `n` bytes of `x`, `cnt` are sent; the
highest of them is put into the marker byte when it is below `bit`. -/
def markedBytes (bs : List UInt8) (cnt : ℕ) (bit : UInt8) (least : ℕ) : List UInt8 :=
  let top := bs.getD (cnt - 1) 0
  if bit ≤ top then
    ~~~(bit - 1) :: bs.take cnt
  else if least < cnt then
    (top ||| ~~~(bit * 2 - 1)) :: bs.take (cnt - 1)
  else
    top :: bs.take (cnt - 1)

/-- Write a signed 32-bit integer in one to five bytes. -/
def writeVarint (x : ℤ) : Session Reply Unit :=
  let bs := leBytes 4 x
  let cnt := significant bs 1 4
  writeAll (markedBytes bs cnt (1 <<< UInt8.ofNat (8 - cnt)) 1)

/-- Read a signed 64-bit integer of at least `minBytes` bytes. The buffer holds nine
bytes. -/
def readVarlong (minBytes : ℕ) : Session Reply ℤ := do
  let b2 ← readBytes minBytes
  let ch := b2.headD 0
  let low := b2.drop 1
  let extra := extraBytes ch
  if extra = 0 then
    pure (wrapI64 (ofLeBytes ((low ++ [ch]).take 8)))
  else if 9 < minBytes - 1 + extra then
    throw (.panic "range end index out of range for slice")
  else
    let mid ← readBytes extra
    if 9 ≤ minBytes - 1 + extra then
      throw (.panic "index out of bounds")
    else
      pure (wrapI64 (ofLeBytes ((low ++ mid ++ [markerBits ch extra]).take 8)))

/-- Write a signed 64-bit integer in at least `minBytes` bytes. -/
def writeVarlong (x : ℤ) (minBytes : ℕ) : Session Reply Unit :=
  let bs := leBytes 8 x
  let cnt := significant bs minBytes 8
  writeAll (markedBytes bs cnt (1 <<< UInt8.ofNat (7 + minBytes - cnt)) minBytes)

/-! ### File indices -/

/-- The last index coded in one direction, and the last negative one with its sign
changed. -/
structure NdxState where
  /-- The last index that was not negative. -/
  prevPos : ℤ := -1
  /-- The last negative index, with its sign changed. -/
  prevNeg : ℤ := 1
deriving DecidableEq, Repr

/-- The bytes of the number `pos` when the last one was `prev`. -/
def encodeNdxNumber (prev pos : ℤ) : List UInt8 :=
  let diff := wrapI32 (pos - prev)
  if 1 ≤ diff ∧ diff < 0xFE then
    leBytes 1 diff
  else if diff < 0 ∨ 0x7FFF < diff then
    -- the highest byte goes first and carries the mark of an absolute number
    [0xFE, (leBytes 4 pos).getD 3 0 ||| 0x80] ++ leBytes 3 pos
  else
    0xFE :: (leBytes 2 diff).reverse

/-- The bytes of an index, and the state of the coding after it. -/
def encodeNdx (s : NdxState) (ndx : ℤ) : List UInt8 × NdxState :=
  if ndx = ndxDone then
    ([0x00], s)
  else if 0 ≤ ndx then
    (encodeNdxNumber s.prevPos ndx, { s with prevPos := ndx })
  else
    (0xFF :: encodeNdxNumber s.prevNeg (wrapI32 (-ndx)), { s with prevNeg := wrapI32 (-ndx) })

/-- Write a file index. -/
def writeNdx (s : NdxState) (ndx : ℤ) : Session Reply NdxState := do
  writeAll (encodeNdx s ndx).1
  pure (encodeNdx s ndx).2

/-- Read the number that follows the sign of an index: an index, or the difference to the
last one. -/
def readNdxNumber (first : UInt8) : Session Reply (Bool × ℤ) :=
  if first = 0xFE then do
    let hi ← readByte
    let lo ← readByte
    if hi &&& 0x80 ≠ 0 then
      let b1 ← readByte
      let b2 ← readByte
      pure (true, wrapI32 (ofLeBytes [lo, b1, b2, hi &&& 0x7F]))
    else
      pure (false, ofLeBytes [lo, hi])
  else
    pure (false, first.toNat)

/-- Read a file index. -/
def readNdx (s : NdxState) : Session Reply (ℤ × NdxState) := do
  let b0 ← readByte
  if b0 = 0x00 then
    pure (ndxDone, s)
  else if b0 = 0xFF then
    let first ← readByte
    let (isAbsolute, raw) ← readNdxNumber first
    let num := if isAbsolute then raw else wrapI32 (s.prevNeg + raw)
    pure (wrapI32 (-num), { s with prevNeg := num })
  else
    let (isAbsolute, raw) ← readNdxNumber b0
    let num := if isAbsolute then raw else wrapI32 (s.prevPos + raw)
    pure (num, { s with prevPos := num })

/-! ### Short strings -/

/-- Read a string of at most 32767 bytes. -/
def readVstring : Session Reply (List UInt8) := do
  let b0 ← readByte
  let len ← if b0 &&& 0x80 ≠ 0 then do
      let b1 ← readByte
      pure (ofLeBytes [b1, b0 &&& 0x7F])
    else
      pure b0.toNat
  let bs ← readBytes len
  pure (fromUtf8Lossy bs)

/-- Write a string of at most 32767 bytes. -/
def writeVstring (s : List UInt8) : Session Reply Unit :=
  if 0x7FFF < s.length then
    throw (.other s!"vstring too long: {s.length}")
  else do
    if 0x7F < s.length then
      writeAll [UInt8.ofNat (s.length / 256) ||| 0x80, UInt8.ofNat (s.length % 256)]
    else
      writeAll [UInt8.ofNat s.length]
    if 0 < s.length then
      writeAll s

/-- The bytes of a string of at most 32767 bytes. -/
def encodeVstring (s : List UInt8) : List UInt8 :=
  (if 0x7F < s.length then
    [UInt8.ofNat (s.length / 256) ||| 0x80, UInt8.ofNat (s.length % 256)]
  else
    [UInt8.ofNat s.length]) ++ s

/-! ### What is read is what was written -/

theorem writes_writeAll
    (bs : List UInt8) :
  Proc.Writes answer (writeAll bs : Session Reply Unit) bs ()
  := Proc.writes_write _ bs

/-- A flush empties the buffer. -/
theorem returns_flushOk
    (closed : Bool) (w : Endpoint H UInt8) :
  Proc.Returns answer closed (flushOk : Session Reply Unit) w ()
    { w with buffer := [], sent := w.sent ++ w.buffer }
  := (Proc.returns_flush _ w).attempt.bind (Proc.returns_pure _ _)

theorem reads_readBytes
    (bs : List UInt8) {n : ℕ} (hn : bs.length = n) :
  Proc.Reads answer (readBytes n : Session Reply (List UInt8)) bs bs
  := Proc.reads_readExact _ bs hn

theorem reads_readByte
    (b : UInt8) :
  Proc.Reads answer (readByte : Session Reply UInt8) [b] b
  := Proc.reads_read _ b

/-- A procedure that reads one byte and goes on. -/
theorem reads_readByte_bind
    {α : Type} {b : UInt8} {bs : List UInt8} {f : UInt8 → Session Reply α} {a : α}
    (h : Proc.Reads answer (f b) bs a) :
  Proc.Reads answer (readByte >>= f) (b :: bs) a
  := (reads_readByte b).bind h

/-- A computation that succeeded goes on. -/
theorem lift_bind
    {α β : Type} {e : Except Error α} {a : α} (he : e = .ok a) (f : α → Session Reply β) :
  (liftM e >>= f) = f a
  := by
  rw [he]
  rfl

/-- Steps that only compute take no input. -/
theorem reads_lift_bind
    {α β : Type} {e : Except Error α} {a : α} (he : e = .ok a) {f : α → Session Reply β}
    {bs : List UInt8} {b : β} (hf : Proc.Reads answer (f a) bs b) :
  Proc.Reads answer (liftM e >>= f) bs b
  := by
  subst he
  apply hf

/-- A computation that failed ends there. -/
theorem rejects_lift_bind
    {α β : Type} {e : Except Error α} {err : Error} (he : e = .error err)
    (f : α → Session Reply β) :
  Proc.Rejects answer (liftM e >>= f) [] err
  := by
  subst he
  apply Proc.rejects_throw

theorem writes_writeInt
    (x : ℤ) :
  Proc.Writes answer (writeInt x : Session Reply Unit) (leBytes 4 x) ()
  := writes_writeAll _

theorem reads_readInt
    {x : ℤ} (hx : IsI32 x) :
  Proc.Reads answer (readInt : Session Reply ℤ) (leBytes 4 x) x
  := by
  intro closed w rest hw
  apply Proc.Returns.bind (reads_readBytes (leBytes 4 x) (length_leBytes 4 x) closed w rest hw)
  rw [wrapI32_ofLeBytes_leBytes hx]
  apply Proc.returns_pure

theorem reads_okOrNone
    {α : Type} {p : Session Reply α} {bs : List UInt8} {a : α} (h : Proc.Reads answer p bs a) :
  Proc.Reads answer (okOrNone p) bs (some a)
  := by
  intro closed w rest hw
  exact (h closed w rest hw).attempt.bind (Proc.returns_pure _ _)

/-- Reading a string that was written gives it back. -/
theorem reads_readVstring
    {s : List UInt8} (hlen : s.length ≤ 0x7FFF) (hs : isUtf8 s = true) :
  Proc.Reads answer (readVstring : Session Reply (List UInt8)) (encodeVstring s) s
  := by
  unfold readVstring encodeVstring
  by_cases hlong : 0x7F < s.length
  · have key : ∀ i : Fin 128, (UInt8.ofNat i ||| 0x80) &&& 0x80 ≠ 0 ∧
        (UInt8.ofNat i ||| 0x80) &&& 0x7F = UInt8.ofNat i := by
      decide +kernel
    obtain ⟨hmark, hhigh⟩ := key ⟨s.length / 256, by omega⟩
    dsimp only at hmark hhigh
    have hle : ofLeBytes [UInt8.ofNat (s.length % 256),
        (UInt8.ofNat (s.length / 256) ||| 0x80) &&& 0x7F] = s.length := by
      have hsize : UInt8.size = 256 := rfl
      rw [hhigh, ofLeBytes, ofLeBytes, ofLeBytes, UInt8.toNat_ofNat_of_lt' (by omega),
        UInt8.toNat_ofNat_of_lt' (by omega)]
      omega
    rw [if_pos hlong, List.cons_append]
    apply reads_readByte_bind
    rw [if_pos hmark, List.singleton_append]
    apply reads_readByte_bind
    apply (Proc.reads_pure _).bind
    rw [hle]
    apply (reads_readBytes s rfl).map_eq
    apply fromUtf8Lossy_of_isUtf8 hs
  · have key : ∀ i : Fin 128, UInt8.ofNat i &&& 0x80 = 0 := by
      decide +kernel
    have hmark := key ⟨s.length, by omega⟩
    rw [if_neg hlong, List.singleton_append]
    apply reads_readByte_bind
    rw [if_neg (not_not_intro hmark)]
    apply (Proc.reads_pure _).bind
    have hsize : UInt8.size = 256 := rfl
    rw [UInt8.toNat_ofNat_of_lt' (by omega)]
    apply (reads_readBytes s rfl).map_eq
    apply fromUtf8Lossy_of_isUtf8 hs

theorem writes_writeVstring
    {s : List UInt8} (hlen : s.length ≤ 0x7FFF) :
  Proc.Writes answer (writeVstring s : Session Reply Unit) (encodeVstring s) ()
  := by
  unfold writeVstring encodeVstring
  rw [if_neg (not_lt.mpr hlen)]
  by_cases hlong : 0x7F < s.length
  · rw [if_pos hlong, if_pos hlong, if_pos (by omega)]
    apply (writes_writeAll _).bind (writes_writeAll s)
  · rw [if_neg hlong, if_neg hlong]
    apply (writes_writeAll _).bind
    by_cases hpos : 0 < s.length
    · rw [if_pos hpos]
      apply writes_writeAll
    · have hnil : s = [] := List.length_eq_zero_iff.mp (by omega)
      rw [if_neg hpos, hnil]
      apply Proc.writes_pure

theorem reads_readShortint
    {x : ℕ} (hx : x < 65536) :
  Proc.Reads answer (readShortint : Session Reply ℕ) (leBytes 2 x) x
  := by
  have e : ofLeBytes (leBytes 2 (x : ℤ)) = x := by
    have := ofLeBytes_leBytes 2 x
    omega
  intro closed w rest hw
  apply Proc.Returns.bind (reads_readBytes (leBytes 2 x) (length_leBytes 2 x) closed w rest hw)
  rw [e]
  apply Proc.returns_pure

/-- The mark of an absolute number can be told and taken off. -/
theorem mark_absolute
    (b : UInt8) (hb : b < 0x80) :
  (b ||| 0x80) &&& 0x80 ≠ 0 ∧ (b ||| 0x80) &&& 0x7F = b
  := by
  have key : ∀ x : BitVec 8, x < 0x80#8 →
      (x ||| 0x80#8) &&& 0x80#8 ≠ 0#8 ∧ (x ||| 0x80#8) &&& 0x7F#8 = x := by
    decide +kernel
  obtain ⟨h₁, h₂⟩ := key b.toBitVec hb
  constructor
  · intro h
    apply h₁
    apply congrArg UInt8.toBitVec h
  · apply UInt8.toBitVec_inj.mp h₂

/-- A byte below the mark does not carry it. -/
theorem not_marked
    (b : UInt8) (hb : b < 0x80) :
  b &&& 0x80 = 0
  := by
  have key : ∀ x : BitVec 8, x < 0x80#8 → x &&& 0x80#8 = 0#8 := by
    decide +kernel
  apply UInt8.toBitVec_inj.mp (key b.toBitVec hb)

/-- A number below 256 is the value of its byte. -/
theorem toNat_ofNat_emod
    (x : ℤ) :
  ((UInt8.ofNat (x % 256).toNat).toNat : ℤ) = x % 256
  := by
  rw [UInt8.toNat_ofNat_of_lt']
  · omega
  · simp only [UInt8.size]
    omega

/-- The highest of the four bytes of a number that is not negative carries no mark. -/
theorem leBytes_top_lt
    {x : ℤ} (h₁ : 0 ≤ x) (h₂ : x < 2147483648) :
  (leBytes 4 x).getD 3 0 < 0x80
  := by
  simp only [leBytes, List.getD_cons_succ, List.getD_cons_zero]
  rw [UInt8.lt_iff_toNat_lt]
  have h := toNat_ofNat_emod (x / 256 / 256 / 256)
  simp only [UInt8.reduceToNat]
  omega

/-- The first byte of a number is no marker of the coding, and reading the rest of it gives
the number back. -/
theorem reads_encodeNdxNumber
    (prev : ℤ) {pos : ℤ} (h₁ : 0 ≤ pos) (h₂ : pos < 2147483648)
    (answer : H → (x : X) → Option (Reply x × H)) :
  ∃ first rest isAbsolute raw, encodeNdxNumber prev pos = first :: rest ∧ first ≠ 0 ∧
    first ≠ 0xFF ∧ (if isAbsolute then raw else wrapI32 (prev + raw)) = pos ∧
    Proc.Reads answer (readNdxNumber first : Session Reply (Bool × ℤ)) rest (isAbsolute, raw)
  := by
  have hpos : wrapI32 pos = pos := wrapI32_of_isI32 ⟨by omega, h₂⟩
  have hdiff : wrapI32 (prev + wrapI32 (pos - prev)) = pos := by
    unfold wrapI32
    omega
  unfold encodeNdxNumber
  generalize hd : wrapI32 (pos - prev) = diff at hdiff ⊢
  by_cases hone : 1 ≤ diff ∧ diff < 0xFE
  · -- one byte: the difference itself
    have hb := toNat_ofNat_emod diff
    rw [Int.emod_eq_of_lt (by omega) (by omega)] at hb
    use UInt8.ofNat (diff % 256).toNat, [], false, diff
    have hne : ∀ b : UInt8, (b.toNat : ℤ) ≠ diff → UInt8.ofNat (diff % 256).toNat ≠ b := by
      rintro _ hb' rfl
      rw [Int.emod_eq_of_lt (by omega) (by omega)] at hb'
      apply hb' hb
    have hfe := hne 0xFE (by simp only [UInt8.reduceToNat]; omega)
    simp only [hone, and_self, if_true, leBytes, Bool.false_eq_true, if_false, true_and]
    constructor
    · apply hne
      simp only [UInt8.reduceToNat]
      omega
    constructor
    · apply hne
      simp only [UInt8.reduceToNat]
      omega
    apply And.intro hdiff
    rw [readNdxNumber, if_neg hfe]
    rw [Int.emod_eq_of_lt (by omega) (by omega)] at *
    rw [hb]
    apply Proc.reads_pure
  · by_cases habs : diff < 0 ∨ 0x7FFF < diff
    · -- an absolute number
      have htop := leBytes_top_lt h₁ h₂
      obtain ⟨hmark, hstrip⟩ := mark_absolute _ htop
      use 0xFE, [(leBytes 4 pos).getD 3 0 ||| 0x80] ++ leBytes 3 pos, true, pos
      simp only [hone, habs, if_true, if_false]
      refine ⟨rfl, by decide, by decide, trivial, ?_⟩
      rw [readNdxNumber, if_pos rfl]
      apply reads_readByte_bind
      apply reads_readByte_bind
      rw [if_pos hmark]
      apply reads_readByte_bind
      apply reads_readByte_bind
      have hval : ofLeBytes (leBytes 4 pos) = pos := by
        rw [ofLeBytes_leBytes]
        omega
      rw [hstrip]
      have hread : wrapI32 (ofLeBytes (leBytes 4 pos)) = pos := by
        rw [hval, hpos]
      apply Proc.reads_pure_of_eq
      apply congrArg (Prod.mk true) hread
    · -- two bytes
      have hlow : 0 ≤ diff ∧ diff < 32768 := by omega
      have hhi : UInt8.ofNat (diff / 256 % 256).toNat < 0x80 := by
        have h := toNat_ofNat_emod (diff / 256)
        rw [UInt8.lt_iff_toNat_lt]
        simp only [UInt8.reduceToNat]
        omega
      have hval : (ofLeBytes (leBytes 2 diff) : ℤ) = diff := by
        rw [ofLeBytes_leBytes]
        omega
      use 0xFE, (leBytes 2 diff).reverse, false, diff
      simp only [hone, habs, if_false, Bool.false_eq_true]
      refine ⟨trivial, by decide, by decide, hdiff, ?_⟩
      rw [readNdxNumber, if_pos rfl]
      apply reads_readByte_bind
      apply reads_readByte_bind
      rw [if_neg (not_not.mpr (not_marked _ hhi))]
      apply Proc.reads_pure_of_eq
      apply congrArg (Prod.mk false) hval

/-- Reading the bytes of an index gives it back, and both sides of the coding stay in the
same state. -/
theorem reads_readNdx
    (s : NdxState) {ndx : ℤ} (h₁ : -2147483648 < ndx) (h₂ : ndx < 2147483648) :
  Proc.Reads answer (readNdx s : Session Reply (ℤ × NdxState)) (encodeNdx s ndx).1
    (ndx, (encodeNdx s ndx).2)
  := by
  unfold encodeNdx
  by_cases hd : ndx = ndxDone
  · simp only [hd, if_true]
    apply reads_readByte_bind
    apply Proc.reads_pure
  by_cases hn : 0 ≤ ndx
  · obtain ⟨first, rest, isAbsolute, raw, he, h0, hff, hraw, hr⟩ :=
      reads_encodeNdxNumber s.prevPos hn h₂ answer
    simp only [hd, hn, if_true, if_false, he]
    apply reads_readByte_bind
    rw [if_neg h0, if_neg hff]
    have h := hr.map fun x =>
      ((if x.1 then x.2 else wrapI32 (s.prevPos + x.2) : ℤ),
        ({ s with prevPos := if x.1 then x.2 else wrapI32 (s.prevPos + x.2) } : NdxState))
    dsimp only at h
    rw [hraw] at h
    apply h
  · have hw : wrapI32 (-ndx) = -ndx := wrapI32_of_isI32 ⟨by omega, by omega⟩
    have hww : wrapI32 (-(-ndx)) = ndx := by
      rw [neg_neg]
      apply wrapI32_of_isI32 ⟨by omega, h₂⟩
    have hneg : 0 ≤ -ndx := by omega
    obtain ⟨first, rest, isAbsolute, raw, he, -, -, hraw, hr⟩ :=
      reads_encodeNdxNumber s.prevNeg hneg (by omega) answer
    simp only [hd, hn, if_false, hw, he]
    apply reads_readByte_bind
    rw [if_neg (by decide), if_pos rfl]
    apply reads_readByte_bind
    have h := hr.map fun x =>
      (wrapI32 (-(if x.1 then x.2 else wrapI32 (s.prevNeg + x.2))),
        ({ s with prevNeg := if x.1 then x.2 else wrapI32 (s.prevNeg + x.2) } : NdxState))
    dsimp only at h
    rw [hraw, hww] at h
    apply h

theorem writes_writeNdx
    (s : NdxState) (ndx : ℤ) :
  Proc.Writes answer (writeNdx s ndx : Session Reply NdxState) (encodeNdx s ndx).1
    (encodeNdx s ndx).2
  := (writes_writeAll (encodeNdx s ndx).1).map fun _ => (encodeNdx s ndx).2
