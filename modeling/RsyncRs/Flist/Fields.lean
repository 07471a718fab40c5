import RsyncRs.Flist.Name

/-!
# Fields of entries

The fields of an entry are read as they were written, when the flags say which ones there
are. Only the numbers of a device are not announced by a flag.
-/

variable {X : Type} {Reply : X → Type} {H : Type}
  {answer : H → (x : X) → Option (Reply x × H)}

/-! ### Numbers -/

theorem carries_u32
    {n : ℕ} (h : n < 4294967296) :
  Proc.Carries answer (writeVarint (wrapI32 n) : Session Reply Unit) ()
    (do
      let x ← readVarint
      pure (asU32 x) : Session Reply ℕ) n
  := (carries_varint (isI32_wrapI32 n)).map_eq asU32 (asU32_wrapI32 h)

theorem carries_u32_fixed
    {n : ℕ} (h : n < 4294967296) :
  Proc.Carries answer (writeInt (wrapI32 n) : Session Reply Unit) ()
    (do
      let x ← readInt
      pure (asU32 x) : Session Reply ℕ) n
  := (carries_int (isI32_wrapI32 n)).map_eq asU32 (asU32_wrapI32 h)

theorem carries_varlong
    {minBytes : ℕ} (h₁ : 3 ≤ minBytes) (h₂ : minBytes ≤ 4) {x : ℤ} (hx : IsI64 x) :
  Proc.Carries answer (writeVarlong x minBytes : Session Reply Unit) () (readVarlong minBytes) x
  := ⟨_, writes_writeVarlong x minBytes, reads_readVarlong h₁ h₂ hx⟩

/-- The length of a string that fits into a signed 32-bit integer. -/
theorem asUsize_wrapI32
    {n : ℕ} (h : n < 2147483648) :
  asUsize (wrapI32 n) = n
  := by
  unfold asUsize wrapI32
  omega

/-! ### Single fields -/

/-- The values of an entry are those of their types. -/
@[mk_iff]
structure FileInfo.Typed (fi : FileInfo) : Prop where
  size : IsI64 fi.size
  modtime : IsI64 fi.modtime
  modNsec : fi.modNsec < 4294967296
  mode : fi.mode < 4294967296
  uid : fi.uid < 4294967296
  gid : fi.gid < 4294967296
  rdevMajor : fi.rdevMajor < 4294967296
  rdevMinor : fi.rdevMinor < 4294967296
  hardLinkFirstNdx : IsI32 fi.hardLinkFirstNdx
  path : isUtf8 fi.path = true
  target : isUtf8 (targetOf fi) = true

instance
    (fi : FileInfo) :
  Decidable fi.Typed
  := decidable_of_iff _ (FileInfo.typed_iff fi).symm

variable {protocol checksumLen xflags : ℕ} {preserve : Preserve} {prev : Option FileInfo}
  {fi : FileInfo}

/-- The modification time that the receiver takes for an entry when it has `prev` before
it. -/
def receivedModtime (protocol xflags : ℕ) (prev : Option FileInfo) (fi : FileInfo) : ℤ :=
  if hasFlag xflags xmitSameTime then (prev.map FileInfo.modtime).getD 0
  else if 30 ≤ protocol then fi.modtime
  else wrapI32 fi.modtime

theorem carries_modtime
    (hfi : fi.Typed) :
  Proc.Carries answer (writeModtime protocol xflags fi : Session Reply Unit) ()
    (readModtime protocol xflags prev) (receivedModtime protocol xflags prev fi)
  := by
  unfold writeModtime readModtime receivedModtime
  cases hs : hasFlag xflags xmitSameTime with
  | true =>
      cases prev with
      | none => apply Proc.carries_pure
      | some p => apply Proc.carries_pure
  | false =>
      simp only [Bool.false_eq_true, if_false]
      by_cases hp : 30 ≤ protocol
      · rw [if_pos hp, if_pos hp, if_pos hp]
        apply carries_varlong (by decide) (by decide) hfi.modtime
      · rw [if_neg hp, if_neg hp, if_neg hp]
        apply carries_int (isI32_wrapI32 _)

theorem carries_modNsec
    (hfi : fi.Typed) :
  Proc.Carries answer (writeModNsec xflags fi : Session Reply Unit) () (readModNsec xflags)
    (if hasFlag xflags xmitModNsec then fi.modNsec else 0)
  := by
  unfold writeModNsec readModNsec
  cases hasFlag xflags xmitModNsec with
  | true => apply carries_u32 hfi.modNsec
  | false => apply Proc.carries_pure

theorem carries_mode
    (hfi : fi.Typed) :
  Proc.Carries answer (writeMode xflags fi : Session Reply Unit) () (readMode xflags prev)
    (if hasFlag xflags xmitSameMode then (prev.map FileInfo.mode).getD 0o100644 else fi.mode)
  := by
  unfold writeMode readMode
  cases hasFlag xflags xmitSameMode with
  | true =>
      cases prev with
      | none => apply Proc.carries_pure
      | some p => apply Proc.carries_pure
  | false => apply carries_u32_fixed hfi.mode

/-- The number of an owner or of a group, which is left out when it is the same and when it is
not preserved. -/
theorem carries_id
    {preserved same : Bool} (hsame : preserved = false → same = true) {prevId : Option ℕ}
    {id : ℕ} (hid : id < 4294967296) :
  Proc.Carries answer (writeId protocol (preserved && !same) id : Session Reply Unit) ()
    (readId protocol same false prevId) (if same then prevId.getD 0 else id)
  := by
  unfold writeId readId
  cases same with
  | true =>
      rw [Bool.not_true, Bool.and_false]
      apply Proc.carries_pure
  | false =>
      have hp : preserved = true := by
        cases preserved with
        | true => rfl
        | false => cases hsame rfl
      rw [hp]
      by_cases h30 : 30 ≤ protocol
      · simp only [h30, if_true, Bool.not_false, Bool.and_self, Bool.false_eq_true, if_false]
        apply carries_u32 hid
      · simp only [h30, if_true, Bool.not_false, Bool.and_self, Bool.false_eq_true, if_false]
        apply carries_u32_fixed hid

/-- The numbers of a device that the receiver takes for an entry when it has `prev` before
it. -/
def receivedRdev (protocol : ℕ) (prev : Option FileInfo) (fi : FileInfo) : ℕ × ℕ :=
  if expectsRdev protocol fi.mode then (fi.rdevMajor, fi.rdevMinor)
  else ((prev.map FileInfo.rdevMajor).getD 0, (prev.map FileInfo.rdevMinor).getD 0)

theorem carries_rdev
    (hfi : fi.Typed) (h : sendsRdev protocol preserve fi = expectsRdev protocol fi.mode) :
  Proc.Carries answer (writeRdev protocol preserve fi : Session Reply Unit) ()
    (readRdev protocol fi.mode prev)
    (receivedRdev protocol prev fi)
  := by
  unfold writeRdev readRdev receivedRdev
  rw [h]
  cases expectsRdev protocol fi.mode with
  | false =>
      cases prev with
      | none => apply Proc.carries_pure
      | some p => apply Proc.carries_pure
  | true =>
      simp only [if_true]
      apply (carries_varint (isI32_wrapI32 _)).bind
      rw [asU32_wrapI32 hfi.rdevMajor]
      by_cases h30 : 30 ≤ protocol
      · rw [if_pos h30, if_pos h30]
        apply (carries_varint (isI32_wrapI32 fi.rdevMinor)).map_eq fun minor =>
          (fi.rdevMajor, asU32 minor)
        rw [asU32_wrapI32 hfi.rdevMinor]
      · rw [if_neg h30, if_neg h30]
        apply (carries_int (isI32_wrapI32 fi.rdevMinor)).map_eq fun minor =>
          (fi.rdevMajor, asU32 minor)
        rw [asU32_wrapI32 hfi.rdevMinor]

theorem carries_target
    (hfi : fi.Typed) (h : fi.isSymlink = true → (targetOf fi).length < 2147483648) :
  Proc.Carries answer (writeTarget fi : Session Reply Unit) () (readTarget fi.mode)
    (if fi.isSymlink then some (targetOf fi) else none)
  := by
  have h' : FileType.fromMode fi.mode = .symlink → (targetOf fi).length < 2147483648 := by
    intro hs
    apply h
    rw [FileInfo.isSymlink, FileInfo.fileType, hs]
    rfl
  unfold writeTarget readTarget FileInfo.isSymlink FileInfo.fileType
  by_cases hs : FileType.fromMode fi.mode = .symlink
  · simp only [hs, decide_true, if_true]
    apply (carries_varint (isI32_wrapI32 _)).bind
    have hlen := h' hs
    rw [asUsize_wrapI32 hlen]
    use targetOf fi, writes_writeAll _
    apply (reads_readString (targetOf fi) rfl (by omega)).map_eq
      fun target => some (fromUtf8Lossy target)
    rw [fromUtf8Lossy_of_isUtf8 hfi.target]
  · simp only [hs, decide_false, Bool.false_eq_true, if_false]
    apply Proc.carries_pure

theorem length_paddedChecksum
    (checksumLen : ℕ) (checksum : Option (List UInt8)) :
  (paddedChecksum checksumLen checksum).length = checksumLen
  := by
  cases checksum with
  | none => apply List.length_replicate
  | some sum =>
      rw [paddedChecksum, List.length_append, List.length_take, List.length_replicate]
      omega

theorem carries_checksum
    (h : checksumLen < 9223372036854775808) :
  Proc.Carries answer (writeChecksum checksumLen fi : Session Reply Unit) ()
    (readChecksum checksumLen fi.mode)
    (if 0 < checksumLen ∧ fi.isRegular then some (paddedChecksum checksumLen fi.checksum)
      else none)
  := by
  have hiff : (0 < checksumLen ∧ fi.isRegular = true) ↔
      (0 < checksumLen ∧ FileType.fromMode fi.mode = .regular) := by
    rw [FileInfo.isRegular, FileInfo.fileType, decide_eq_true_iff]
  unfold writeChecksum readChecksum
  simp only [hiff]
  split_ifs
  · use paddedChecksum checksumLen fi.checksum, writes_writeAll _
    apply (reads_readString _ (length_paddedChecksum _ _) h).map
  · apply Proc.carries_pure

/-! ### The fields before the numbers of a device -/

/-- The fields of an entry that come first. -/
structure FirstFields where
  size : ℤ
  modtime : ℤ
  modNsec : ℕ
  mode : ℕ
  uid : ℕ
  gid : ℕ

/-- Write the fields that come first. -/
def writeFirstFields (protocol : ℕ) (preserve : Preserve) (xflags : ℕ) (fi : FileInfo) :
    Session Reply Unit := do
  writeVarlong fi.size 3
  writeModtime protocol xflags fi
  writeModNsec xflags fi
  writeMode xflags fi
  writeId protocol (preserve.uid && !hasFlag xflags xmitSameUid) fi.uid
  writeId protocol (preserve.gid && !hasFlag xflags xmitSameGid) fi.gid

/-- Write the fields that come last. -/
def writeLastFields (protocol checksumLen : ℕ) (preserve : Preserve) (fi : FileInfo) :
    Session Reply Unit := do
  writeRdev protocol preserve fi
  writeTarget fi
  writeChecksum checksumLen fi

theorem writeFields_eq :
  (writeFields protocol checksumLen preserve xflags fi : Session Reply Unit) = (do
    writeFirstFields protocol preserve xflags fi
    writeLastFields protocol checksumLen preserve fi)
  := by
  simp only [writeFields, writeFirstFields, writeLastFields, bind_assoc]

/-- Read the fields that come first. -/
def readFirstFields (protocol xflags : ℕ) (prev : Option FileInfo) :
    Session Reply FirstFields := do
  let size ← readVarlong 3
  let modtime ← readModtime protocol xflags prev
  let modNsec ← readModNsec xflags
  let mode ← readMode xflags prev
  let uid ← readId protocol (hasFlag xflags xmitSameUid) (hasFlag xflags xmitUserNameFollows)
    (prev.map FileInfo.uid)
  let gid ← readId protocol (hasFlag xflags xmitSameGid) (hasFlag xflags xmitGroupNameFollows)
    (prev.map FileInfo.gid)
  pure { size, modtime, modNsec, mode, uid, gid }

/-- Read the fields that come last. -/
def readLastFields (protocol checksumLen : ℕ) (prev : Option FileInfo)
    (name : Option Name × Name) (first : FirstFields) : Session Reply FileInfo := do
  let (rdevMajor, rdevMinor) ← readRdev protocol first.mode prev
  let linkTarget ← readTarget first.mode
  let checksum ← readChecksum checksumLen first.mode
  pure { name := name.2, dirname := name.1, modtime := first.modtime, modNsec := first.modNsec,
         size := first.size, mode := first.mode, flags := 0, uid := first.uid, gid := first.gid,
         linkTarget, rdevMajor, rdevMinor, hardLinkFirstNdx := -1, checksum }

theorem readFields_eq
    (name : Option Name × Name) :
  (readFields protocol checksumLen xflags prev name : Session Reply FileInfo) = (do
    let first ← readFirstFields protocol xflags prev
    readLastFields protocol checksumLen prev name first)
  := by
  simp only [readFields, readFirstFields, readLastFields, bind_assoc, pure_bind]

/-- What the receiver makes of the fields that come first. -/
def receivedFirst (protocol xflags : ℕ) (prev : Option FileInfo) (fi : FileInfo) : FirstFields :=
  { size := fi.size
    modtime := receivedModtime protocol xflags prev fi
    modNsec := if hasFlag xflags xmitModNsec then fi.modNsec else 0
    mode := fi.mode
    uid := if hasFlag xflags xmitSameUid then (prev.map FileInfo.uid).getD 0 else fi.uid
    gid := if hasFlag xflags xmitSameGid then (prev.map FileInfo.gid).getD 0 else fi.gid }

/-- What the flags say about the fields of an entry. -/
structure FlagsFit (preserve : Preserve) (xflags : ℕ) (prev : Option FileInfo) (fi : FileInfo) :
    Prop where
  mode : hasFlag xflags xmitSameMode = true → (prev.map FileInfo.mode).getD 0o100644 = fi.mode
  uid : preserve.uid = false → hasFlag xflags xmitSameUid = true
  gid : preserve.gid = false → hasFlag xflags xmitSameGid = true
  user : hasFlag xflags xmitUserNameFollows = false
  group : hasFlag xflags xmitGroupNameFollows = false

/-- The fields that come first reach the receiver. -/
theorem carries_firstFields
    (hfi : fi.Typed) (hfit : FlagsFit preserve xflags prev fi) :
  Proc.Carries answer (writeFirstFields protocol preserve xflags fi : Session Reply Unit) ()
    (readFirstFields protocol xflags prev) (receivedFirst protocol xflags prev fi)
  := by
  apply (carries_varlong (by decide) (by decide) hfi.size).bind
  apply (carries_modtime hfi).bind
  apply (carries_modNsec hfi).bind
  apply (carries_mode hfi).bind
  have hmode : (if hasFlag xflags xmitSameMode = true
      then (prev.map FileInfo.mode).getD 0o100644 else fi.mode) = fi.mode := by
    split
    · next h => apply hfit.mode h
    · rfl
  rw [hmode, hfit.user, hfit.group]
  apply (carries_id hfit.uid hfi.uid).bind
  apply (carries_id hfit.gid hfi.gid).map_eq
  rfl

/-! ### All fields -/

/-- What the receiver makes of the fields of an entry when it has `prev` before it. -/
def receivedFields (protocol checksumLen xflags : ℕ) (prev : Option FileInfo)
    (name : Option Name × Name) (fi : FileInfo) : FileInfo :=
  { name := name.2
    dirname := name.1
    modtime := (receivedFirst protocol xflags prev fi).modtime
    modNsec := (receivedFirst protocol xflags prev fi).modNsec
    size := fi.size
    mode := fi.mode
    flags := 0
    uid := (receivedFirst protocol xflags prev fi).uid
    gid := (receivedFirst protocol xflags prev fi).gid
    linkTarget := if fi.isSymlink then some (targetOf fi) else none
    rdevMajor := (receivedRdev protocol prev fi).1
    rdevMinor := (receivedRdev protocol prev fi).2
    hardLinkFirstNdx := -1
    checksum :=
      if 0 < checksumLen ∧ fi.isRegular then some (paddedChecksum checksumLen fi.checksum)
      else none }

/-- The fields of an entry reach the receiver. -/
theorem carries_fields
    (hfi : fi.Typed) (name : Option Name × Name) (hfit : FlagsFit preserve xflags prev fi)
    (hrdev : sendsRdev protocol preserve fi = expectsRdev protocol fi.mode)
    (htarget : fi.isSymlink = true → (targetOf fi).length < 2147483648)
    (hlen : checksumLen < 9223372036854775808) :
  Proc.Carries answer
    (writeFields protocol checksumLen preserve xflags fi : Session Reply Unit) ()
    (readFields protocol checksumLen xflags prev name)
    (receivedFields protocol checksumLen xflags prev name fi)
  := by
  rw [writeFields_eq, readFields_eq]
  apply (carries_firstFields hfi hfit).bind
  apply (carries_rdev hfi hrdev).bind
  apply (carries_target hfi htarget).bind
  apply (carries_checksum hlen).map_eq
  rfl
