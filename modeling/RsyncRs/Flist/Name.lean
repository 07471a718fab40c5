import RsyncRs.Flist.Flags

/-!
# Names of entries

A name is sent without the bytes that it shares with the name before it. The receiver puts
them in front again, makes a string of what it has, and splits it at the last slash.
-/

variable {X : Type} {Reply : X → Type} {H : Type}
  {answer : H → (x : X) → Option (Reply x × H)}

/-! ### Shared bytes -/

theorem sameLen_le
    (fname prevName : Name) :
  sameLen fname prevName ≤ 255 ∧ sameLen fname prevName ≤ fname.length ∧
    sameLen fname prevName ≤ prevName.length
  := by
  have h := (List.takeWhile_sublist (l := (fname.zip prevName).take 255)
    fun p => p.1 = p.2).length_le
  rw [List.length_take, List.length_zip] at h
  unfold sameLen
  omega

/-- The names share the bytes that are counted. -/
theorem take_sameLen
    (fname prevName : Name) :
  prevName.take (sameLen fname prevName) = fname.take (sameLen fname prevName)
  := by
  have key : ∀ n : ℕ, ∀ a b : Name,
      b.take (((a.zip b).take n).takeWhile fun p => p.1 = p.2).length =
        a.take (((a.zip b).take n).takeWhile fun p => p.1 = p.2).length := by
    intro n
    induction n with
    | zero =>
        intro a b
        rfl
    | succ n ih =>
        intro a b
        match a, b with
        | [], b => simp
        | x :: a, [] => simp
        | x :: a, y :: b =>
          by_cases hxy : x = y
          · simp [hxy, ih a b]
          · simp [hxy]
  apply key

/-! ### Names of entries received -/

/-- The entry with the name that the receiver makes of a path. -/
def named (fullName : Name) : FileInfo :=
  { name := (splitName fullName).2, dirname := (splitName fullName).1 }

/-- The only slash of the path is its first byte. -/
def isRootChild (p : Name) : Bool :=
  p.head? = some sep ∧ sep ∉ p.tail

/-- A path that is split is put together again, but for a slash at its start that is its
only one. -/
theorem path_named
    (p : Name) :
  (named p).path = if isRootChild p then p.tail else p
  := by
  unfold named splitName FileInfo.path
  by_cases hs : sep ∈ p
  · have hp := FsPath.beforeLastPart_append hs
    have hlast := FsPath.sep_not_mem_lastPart p
    rw [if_pos hs]
    dsimp only
    generalize FsPath.beforeLastPart p = d at hp ⊢
    generalize FsPath.lastPart p = l at hp hlast ⊢
    subst hp
    cases d with
    | nil => simp [isRootChild, hlast]
    | cons c d => simp [isRootChild, bytesOf, sep]
  · rw [if_neg hs]
    have hroot : isRootChild p = false := by
      cases p with
      | nil => rfl
      | cons c p =>
          have hc : c ≠ sep := fun h => hs (h ▸ List.mem_cons_self)
          simp [isRootChild, hc]
    rw [hroot]
    simp

/-- A path that is put together again does not start with its only slash. -/
theorem not_isRootChild_of_path
    {p : Name} (h : (named p).path = p) :
  isRootChild p = false
  := by
  cases hroot : isRootChild p with
  | false => rfl
  | true =>
      rw [path_named, if_pos hroot] at h
      have hlen := congrArg List.length h
      rw [List.length_tail] at hlen
      cases p with
      | nil => simp [isRootChild] at hroot
      | cons c p =>
          rw [List.length_cons] at hlen
          omega

theorem length_path_named_le
    (p : Name) :
  (named p).path.length ≤ p.length
  := by
  rw [path_named]
  split
  · rw [List.length_tail]
    omega
  · rfl

/-! ### Flags of names -/

/-- The flags with which an entry is sent after the entry `prev`. -/
def sentFlags (protocol : ℕ) (preserve : Preserve) (varintFlags : Bool) (prev : Option FileInfo)
    (fi : FileInfo) : ℕ :=
  wireFlags varintFlags fi.isDir (entryFlags protocol preserve prev fi
    (sameLen fi.path (prevName prev)) (fi.path.length - sameLen fi.path (prevName prev)))

theorem hasFlag_sentFlags
    {protocol : ℕ} {preserve : Preserve} {varintFlags : Bool} {prev : Option FileInfo}
    {fi : FileInfo} {k : ℕ} (h₀ : k ≠ 0) (h₂ : k ≠ 2) :
  hasFlag (sentFlags protocol preserve varintFlags prev fi) (1 <<< k) =
    (entryFlags protocol preserve prev fi (sameLen fi.path (prevName prev))
      (fi.path.length - sameLen fi.path (prevName prev))).testBit k
  := by
  rw [hasFlag_one_shiftLeft, sentFlags, testBit_wireFlags _ _ _ h₀ h₂]

theorem hasFlag_sameName
    (protocol : ℕ) (preserve : Preserve) (varintFlags : Bool) (prev : Option FileInfo)
    (fi : FileInfo) :
  hasFlag (sentFlags protocol preserve varintFlags prev fi) xmitSameName =
    decide (0 < sameLen fi.path (prevName prev))
  := by
  rw [xmitSameName, hasFlag_sentFlags (by decide) (by decide), testBit_entryFlags,
    testBit_sameFlags_of_ge _ _ _ (by decide)]
  simp

theorem hasFlag_longName
    (protocol : ℕ) (preserve : Preserve) (varintFlags : Bool) (prev : Option FileInfo)
    (fi : FileInfo) :
  hasFlag (sentFlags protocol preserve varintFlags prev fi) xmitLongName =
    decide (255 < fi.path.length - sameLen fi.path (prevName prev))
  := by
  rw [xmitLongName, hasFlag_sentFlags (by decide) (by decide), testBit_entryFlags,
    testBit_sameFlags_of_ge _ _ _ (by decide)]
  simp

/-! ### Names on the wire -/

/-- The bytes of the number of bytes that a name shares. -/
def encodeSame (same : ℕ) : List UInt8 :=
  if 0 < same then [UInt8.ofNat same] else []

/-- The bytes of the length of the rest of a name. -/
def encodeRestLen (len : ℕ) : List UInt8 :=
  if 255 < len then encodeVarint (wrapI32 len) else [UInt8.ofNat len]

/-- The length that is read for the rest of a name of `len` bytes. -/
def restLenRead (len : ℕ) : ℕ :=
  if 255 < len then asUsize (wrapI32 len) else len

theorem writes_writeName
    {xflags same : ℕ} {rest : Name} (hs : hasFlag xflags xmitSameName = decide (0 < same))
    (hl : hasFlag xflags xmitLongName = decide (255 < rest.length)) :
  Proc.Writes answer (writeName xflags same rest : Session Reply Unit)
    (encodeSame same ++ (encodeRestLen rest.length ++ rest)) ()
  := by
  have hrest : Proc.Writes answer (writeRest xflags rest : Session Reply Unit)
      (encodeRestLen rest.length ++ rest) () := by
    unfold writeRest encodeRestLen
    rw [hl]
    by_cases h : 255 < rest.length
    · simp only [h, decide_true, if_true]
      apply (writes_writeVarint _).bind (writes_writeAll rest)
    · simp only [h, decide_false, Bool.false_eq_true, if_false]
      apply (writes_writeAll _).bind (writes_writeAll rest)
  unfold writeName encodeSame
  rw [hs]
  by_cases h : 0 < same
  · simp only [h, decide_true, if_true]
    apply (writes_writeAll _).bind hrest
  · simp only [h, decide_false, Bool.false_eq_true, if_false]
    apply hrest

theorem reads_readSameLen
    {xflags same : ℕ} (hs : hasFlag xflags xmitSameName = decide (0 < same)) (h : same ≤ 255) :
  Proc.Reads answer (readSameLen xflags : Session Reply ℕ) (encodeSame same) same
  := by
  unfold readSameLen encodeSame
  rw [hs]
  by_cases hpos : 0 < same
  · simp only [hpos, decide_true, if_true]
    apply reads_readByte_bind
    apply Proc.reads_pure_of_eq
    rw [UInt8.toNat_ofNat_of_lt']
    simp only [UInt8.size]
    omega
  · simp only [hpos, decide_false, Bool.false_eq_true, if_false]
    apply Proc.reads_pure_of_eq
    omega

theorem reads_readRestLen
    {xflags len : ℕ} (hl : hasFlag xflags xmitLongName = decide (255 < len)) :
  Proc.Reads answer (readRestLen xflags : Session Reply ℕ) (encodeRestLen len) (restLenRead len)
  := by
  unfold readRestLen encodeRestLen restLenRead
  rw [hl]
  by_cases h : 255 < len
  · simp only [h, decide_true, if_true]
    apply (reads_readVarint (isI32_wrapI32 len)).map
  · simp only [h, decide_false, Bool.false_eq_true, if_false]
    apply reads_readByte_bind
    apply Proc.reads_pure_of_eq
    rw [UInt8.toNat_ofNat_of_lt']
    simp only [UInt8.size]
    omega

theorem reads_readString
    (bs : List UInt8) {n : ℕ} (hn : bs.length = n) (h : n < 9223372036854775808) :
  Proc.Reads answer (readString n : Session Reply (List UInt8)) bs bs
  := by
  apply reads_lift_bind (reserve_eq (by omega))
  apply reads_readBytes bs hn

/-- No buffer has room for such a string. -/
theorem rejects_readString
    {n : ℕ} (h : 9223372036854775808 ≤ n) :
  Proc.Rejects answer (readString n : Session Reply (List UInt8)) []
    (.panic "capacity overflow")
  := by
  have hreserve : reserve 1 n = .error (.panic "capacity overflow") := if_pos (by omega)
  apply rejects_lift_bind hreserve

/-- The receiver makes a name of what is shared and as many bytes as are announced. -/
theorem reads_readName
    {xflags same len : ℕ} {prev : Option FileInfo} {part name : List UInt8}
    (hs : hasFlag xflags xmitSameName = decide (0 < same))
    (hl : hasFlag xflags xmitLongName = decide (255 < len)) (hsame : same ≤ 255)
    (hprev : same ≤ (prevName prev).length) (hpart : part.length = restLenRead len)
    (hlen : restLenRead len < 9223372036854775808)
    (hname : fromUtf8Lossy ((prevName prev).take same ++ part) = name) :
  Proc.Reads answer (readName xflags prev : Session Reply Name)
    (encodeSame same ++ (encodeRestLen len ++ part)) name
  := by
  apply (reads_readSameLen hs hsame).bind
  apply (reads_readRestLen hl).bind
  have hslice : slice (prevName prev) 0 same = .ok ((prevName prev).take same) := by
    rw [slice, if_neg (by omega)]
    rfl
  apply reads_lift_bind hslice
  apply (reads_readString part hpart hlen).map_eq _ hname

/-! ### Lengths that do not fit -/

theorem restLenRead_of_lt
    {len : ℕ} (h : len < 2147483648) :
  restLenRead len = len
  := by
  unfold restLenRead
  split
  · unfold asUsize wrapI32
    omega
  · rfl

/-- A length that does not fit is read as one that no buffer can have, or as a much smaller
one. -/
theorem restLenRead_of_ge
    {len : ℕ} (h : 2147483648 ≤ len) :
  9223372036854775808 ≤ restLenRead len ∨ restLenRead len + 4294967296 ≤ len
  := by
  have hlong : 255 < len := by omega
  rw [restLenRead, if_pos hlong]
  unfold asUsize wrapI32
  omega

/-- The receiver panics on a length that no buffer can have. -/
theorem rejects_readName
    {xflags same len : ℕ} {prev : Option FileInfo}
    (hs : hasFlag xflags xmitSameName = decide (0 < same))
    (hl : hasFlag xflags xmitLongName = decide (255 < len)) (hsame : same ≤ 255)
    (hprev : same ≤ (prevName prev).length) (part : List UInt8)
    (hlen : 9223372036854775808 ≤ restLenRead len) :
  Proc.Rejects answer (readName xflags prev : Session Reply Name)
    (encodeSame same ++ (encodeRestLen len ++ part)) (.panic "capacity overflow")
  := by
  have hslice : slice (prevName prev) 0 same = .ok ((prevName prev).take same) := by
    rw [slice, if_neg (by omega)]
    rfl
  apply (reads_readSameLen hs hsame).bind_rejects
  apply (reads_readRestLen hl).bind_rejects
  rw [lift_bind hslice]
  apply ((rejects_readString hlen).append part).bind
