import RsyncRs.Flist.Transfer
import RsyncRs.Io.Panics

/-!
# Streams that make the receiver panic

The receiver of a file list checks neither the markers nor the lengths that the peer sends. It
ends without a panic exactly when every marker and every length that it comes to fits.
-/

variable {X : Type} {Reply : X → Type} {H : Type}
  {answer : H → (x : X) → Option (Reply x × H)}

/-- The receiver of a string panics on a length that no buffer has. -/
theorem avoids_readString_iff
    (len : ℕ) (w : Endpoint H UInt8) :
  Proc.Avoids answer true Error.IsPanic (readString len : Session Reply (List UInt8)) w ↔
    len < 9223372036854775808
  := by
  unfold readString
  by_cases hlen : len < 9223372036854775808
  · rw [lift_bind (reserve_eq (by omega))]
    simp [hlen, avoids_readBytes]
  · have hreserve : reserve 1 len = .error (.panic "capacity overflow") :=
      if_pos (by omega)
    rw [lift_bind_error hreserve, Proc.avoids_throw_iff]
    simp [Error.IsPanic, hlen]

/-! ### What fits -/

variable (answer)

/-- What fits where the flags of an entry are expected. -/
def XflagsFit (protocol : ℕ) (varintFlags : Bool) (w : Endpoint H UInt8) : Prop :=
  if varintFlags then
    varintFits w.input = true
  else
    Proc.After answer true (readByte : Session Reply UInt8) w fun b w => b ≠ 0 →
      Proc.After answer true (readXflags.readHighFlags protocol b.toNat : Session Reply ℕ) w
        fun flags w => flags = xmitExtendedFlags ||| xmitIoErrorEndlist →
          varintFits w.input = true

/-- What fits where a name is expected: no more is shared than the name before has, and the
length of the rest is that of a buffer. -/
def NameFits (xflags : ℕ) (prev : Option FileInfo) (w : Endpoint H UInt8) : Prop :=
  Proc.After answer true (readSameLen xflags : Session Reply ℕ) w fun same w =>
    (hasFlag xflags xmitLongName = true → varintFits w.input = true) ∧
    Proc.After answer true (readRestLen xflags : Session Reply ℕ) w fun restLen _ =>
      same ≤ (prevName prev).length ∧ restLen < 9223372036854775808

/-- What fits where a modification time is expected. -/
def ModtimeFits (protocol xflags : ℕ) (w : Endpoint H UInt8) : Prop :=
  hasFlag xflags xmitSameTime = false → 30 ≤ protocol → varlongFits 4 w.input = true

/-- What fits where the number of an owner or of a group is expected. -/
def IdFits (protocol : ℕ) (same : Bool) (w : Endpoint H UInt8) : Prop :=
  same = false → 30 ≤ protocol → varintFits w.input = true

/-- What fits where the numbers of a device are expected. -/
def RdevFits (protocol mode : ℕ) (w : Endpoint H UInt8) : Prop :=
  expectsRdev protocol mode = true → varintFits w.input = true ∧
    (30 ≤ protocol → Proc.After answer true (readVarint : Session Reply ℤ) w fun _ w =>
      varintFits w.input = true)

/-- What fits where the target of a link is expected: its length is that of a buffer. -/
def TargetFits (mode : ℕ) (w : Endpoint H UInt8) : Prop :=
  FileType.fromMode mode = .symlink → varintFits w.input = true ∧
    Proc.After answer true (readVarint : Session Reply ℤ) w fun len _ =>
      asUsize len < 9223372036854775808

/-- What fits where the fields of an entry are expected. -/
def FieldsFit (protocol checksumLen xflags : ℕ) (prev : Option FileInfo)
    (w : Endpoint H UInt8) : Prop :=
  Proc.After answer true (readVarlong 3 : Session Reply ℤ) w fun _ w =>
  ModtimeFits protocol xflags w ∧
  Proc.After answer true (readModtime protocol xflags prev : Session Reply ℤ) w fun _ w =>
  (hasFlag xflags xmitModNsec = true → varintFits w.input = true) ∧
  Proc.After answer true (readModNsec xflags : Session Reply ℕ) w fun _ w =>
  Proc.After answer true (readMode xflags prev : Session Reply ℕ) w fun mode w =>
  IdFits protocol (hasFlag xflags xmitSameUid) w ∧
  Proc.After answer true (readId protocol (hasFlag xflags xmitSameUid)
    (hasFlag xflags xmitUserNameFollows) (prev.map FileInfo.uid) : Session Reply ℕ) w fun _ w =>
  IdFits protocol (hasFlag xflags xmitSameGid) w ∧
  Proc.After answer true (readId protocol (hasFlag xflags xmitSameGid)
    (hasFlag xflags xmitGroupNameFollows) (prev.map FileInfo.gid) : Session Reply ℕ) w fun _ w =>
  RdevFits answer protocol mode w ∧
  Proc.After answer true (readRdev protocol mode prev : Session Reply (ℕ × ℕ)) w fun _ w =>
  TargetFits answer mode w ∧
  Proc.After answer true (readTarget mode : Session Reply (Option Name)) w fun _ _ =>
  0 < checksumLen ∧ FileType.fromMode mode = .regular → checksumLen < 9223372036854775808

/-- What fits where an entry is expected after its flags. -/
def EntryFits (protocol checksumLen xflags : ℕ) (files : List FileInfo)
    (w : Endpoint H UInt8) : Prop :=
  NameFits answer xflags files.getLast? w ∧
  Proc.After answer true (readName xflags files.getLast? : Session Reply Name) w fun _ w =>
    if 30 ≤ protocol ∧ hasFlag xflags xmitHlinked ∧ ¬ hasFlag xflags xmitHlinkFirst then
      varintFits w.input = true
    else
      FieldsFit answer protocol checksumLen xflags files.getLast? w

/-- What fits where a list of names of owners or of groups is expected. -/
def IdListFits (preserved : Bool) (w : Endpoint H UInt8) : Prop :=
  preserved = true → ∀ w', Proc.Rounds answer true (recvIdEntry : Unit → Session Reply _)
    ((), w) ((), w') → varintFits w'.input = true

/-- What fits where the trailer of a list is expected. -/
def TrailerFits (protocol : ℕ) (preserveUid preserveGid varintFlags incRecurse : Bool)
    (w : Endpoint H UInt8) : Prop :=
  (varintFlags = true → varintFits w.input = true) ∧
  Proc.After answer true (recvTrailer.recvInlineError varintFlags : Session Reply Unit) w
    fun _ w => incRecurse = false → 30 ≤ protocol →
      IdListFits answer preserveUid w ∧
      Proc.After answer true (recvIdList preserveUid : Session Reply Unit) w fun _ w =>
      IdListFits answer preserveGid w

/-- What fits where an entry or the trailer is expected. -/
def NextFits (protocol checksumLen : ℕ) (preserveUid preserveGid : Bool) (compatFlags : ℕ)
    (files : List FileInfo) (w : Endpoint H UInt8) : Prop :=
  XflagsFit answer protocol (hasFlag compatFlags cfVarintFlistFlags) w ∧
  Proc.After answer true (readXflags protocol (hasFlag compatFlags cfVarintFlistFlags) :
    Session Reply ℕ) w fun xflags w =>
    if xflags = 0 then
      TrailerFits answer protocol preserveUid preserveGid
        (hasFlag compatFlags cfVarintFlistFlags) (hasFlag compatFlags cfIncRecurse) w
    else
      EntryFits answer protocol checksumLen xflags files w

variable {answer} {protocol checksumLen xflags : ℕ} {prev : Option FileInfo}
  {w : Endpoint H UInt8}

/-! ### Reading an entry -/

theorem avoids_readHighFlags
    (flags : ℕ) (w : Endpoint H UInt8) :
  Proc.Avoids answer true Error.IsPanic
    (readXflags.readHighFlags protocol flags : Session Reply ℕ) w
  := by
  unfold readXflags.readHighFlags
  split
  · apply Proc.avoids_map_iff.mpr (avoids_readByte w)
  · apply Proc.avoids_pure

theorem avoids_readXflags_iff
    {varintFlags : Bool} :
  Proc.Avoids answer true Error.IsPanic (readXflags protocol varintFlags : Session Reply ℕ) w ↔
    XflagsFit answer protocol varintFlags w
  := by
  unfold readXflags XflagsFit
  cases varintFlags with
  | true =>
      rw [if_pos rfl, if_pos rfl, Proc.avoids_map_iff]
      apply avoids_readVarint_iff
  | false =>
      rw [if_neg Bool.false_ne_true, if_neg Bool.false_ne_true, Proc.avoids_bind_iff,
        and_iff_right (avoids_readByte w)]
      apply Proc.after_congr
      intro b w
      by_cases hb : b = 0
      · simp [hb, Proc.avoids_pure]
      · rw [if_neg hb, imp_iff_right hb, Proc.avoids_bind_iff,
          and_iff_right (avoids_readHighFlags _ w)]
        apply Proc.after_congr
        intro flags w
        by_cases hend : flags = xmitExtendedFlags ||| xmitIoErrorEndlist
        · rw [if_pos hend, imp_iff_right hend, Proc.avoids_map_iff, avoids_readVarint_iff]
        · simp [hend, Proc.avoids_pure]

theorem avoids_readSameLen
    (w : Endpoint H UInt8) :
  Proc.Avoids answer true Error.IsPanic (readSameLen xflags : Session Reply ℕ) w
  := by
  unfold readSameLen
  split
  · apply Proc.avoids_map_iff.mpr (avoids_readByte w)
  · apply Proc.avoids_pure

theorem avoids_readRestLen_iff :
  Proc.Avoids answer true Error.IsPanic (readRestLen xflags : Session Reply ℕ) w ↔
    (hasFlag xflags xmitLongName = true → varintFits w.input = true)
  := by
  unfold readRestLen
  split
  · next h => rw [imp_iff_right h, Proc.avoids_map_iff, avoids_readVarint_iff]
  · next h =>
    rw [Proc.avoids_map_iff]
    simp [h, avoids_readByte]

/-- The receiver panics on a name that shares more than there is, and on a length that no
buffer has. -/
theorem avoids_readName_iff :
  Proc.Avoids answer true Error.IsPanic (readName xflags prev : Session Reply Name) w ↔
    NameFits answer xflags prev w
  := by
  unfold readName NameFits
  rw [Proc.avoids_bind_iff, and_iff_right (avoids_readSameLen w)]
  apply Proc.after_congr
  intro same w
  rw [Proc.avoids_bind_iff, avoids_readRestLen_iff]
  apply and_congr_right'
  apply Proc.after_congr
  intro restLen w
  by_cases hsame : same ≤ (prevName prev).length
  · have hslice : slice (prevName prev) 0 same = .ok ((prevName prev).take same) := by
      rw [slice, if_neg (by omega)]
      rfl
    rw [lift_bind hslice, Proc.avoids_map_iff, avoids_readString_iff, and_iff_right hsame]
  · have hslice : slice (prevName prev) 0 same = .error (.panic "slice index out of range") := by
      rw [slice, if_pos (by omega)]
      rfl
    rw [lift_bind_error hslice, Proc.avoids_throw_iff]
    simp [Error.IsPanic, hsame]

theorem avoids_readModtime_iff :
  Proc.Avoids answer true Error.IsPanic (readModtime protocol xflags prev : Session Reply ℤ) w ↔
    ModtimeFits protocol xflags w
  := by
  unfold readModtime ModtimeFits
  split
  · next h => simp [h, Proc.avoids_pure]
  · next h =>
    rw [imp_iff_right (Bool.not_eq_true _ ▸ h)]
    split
    · next hp => rw [imp_iff_right hp, avoids_readVarlong_iff (by decide) (by decide)]
    · next hp => simp [hp, avoids_readInt]

theorem avoids_readModNsec_iff :
  Proc.Avoids answer true Error.IsPanic (readModNsec xflags : Session Reply ℕ) w ↔
    (hasFlag xflags xmitModNsec = true → varintFits w.input = true)
  := by
  unfold readModNsec
  split
  · next h => rw [imp_iff_right h, Proc.avoids_map_iff, avoids_readVarint_iff]
  · next h => simp [h, Proc.avoids_pure]

theorem avoids_readMode
    (w : Endpoint H UInt8) :
  Proc.Avoids answer true Error.IsPanic (readMode xflags prev : Session Reply ℕ) w
  := by
  unfold readMode
  split
  · apply Proc.avoids_pure
  · apply Proc.avoids_map_iff.mpr (avoids_readInt w)

theorem avoids_skipIdName
    (w : Endpoint H UInt8) :
  Proc.Avoids answer true Error.IsPanic (skipIdName : Session Reply Unit) w
  := by
  apply Proc.avoids_bind_iff.mpr
  apply And.intro (avoids_readByte w)
  intro len w _
  apply Proc.avoids_map_iff.mpr (avoids_readBytes _ w)

theorem avoids_readId_iff
    {same nameFollows : Bool} {prevId : Option ℕ} :
  Proc.Avoids answer true Error.IsPanic
      (readId protocol same nameFollows prevId : Session Reply ℕ) w ↔
    IdFits protocol same w
  := by
  unfold readId IdFits
  split
  · next h => simp [h, Proc.avoids_pure]
  · next h =>
    rw [imp_iff_right (Bool.not_eq_true _ ▸ h)]
    split
    · next hp =>
      rw [imp_iff_right hp, Proc.avoids_bind_iff, avoids_readVarint_iff]
      apply and_iff_left
      intro id w _
      split
      · apply Proc.avoids_map_iff.mpr (avoids_skipIdName w)
      · apply Proc.avoids_pure
    · next hp =>
      rw [Proc.avoids_map_iff]
      simp [hp, avoids_readInt]

theorem avoids_readRdev_iff
    {mode : ℕ} :
  Proc.Avoids answer true Error.IsPanic
      (readRdev protocol mode prev : Session Reply (ℕ × ℕ)) w ↔
    RdevFits answer protocol mode w
  := by
  unfold readRdev RdevFits
  split
  · next h =>
    rw [imp_iff_right h, Proc.avoids_bind_iff, avoids_readVarint_iff]
    apply and_congr_right'
    split
    · next hp =>
      rw [imp_iff_right hp]
      apply Proc.after_congr
      intro major w
      rw [Proc.avoids_map_iff, avoids_readVarint_iff]
    · next hp =>
      simp only [hp, false_implies, iff_true]
      intro major w _
      apply Proc.avoids_map_iff.mpr (avoids_readInt w)
  · next h => simp [h, Proc.avoids_pure]

theorem avoids_readTarget_iff
    {mode : ℕ} :
  Proc.Avoids answer true Error.IsPanic (readTarget mode : Session Reply (Option Name)) w ↔
    TargetFits answer mode w
  := by
  unfold readTarget TargetFits
  split
  · next h =>
    rw [imp_iff_right h, Proc.avoids_bind_iff, avoids_readVarint_iff]
    apply and_congr_right'
    apply Proc.after_congr
    intro len w
    rw [Proc.avoids_map_iff, avoids_readString_iff]
  · next h => simp [h, Proc.avoids_pure]

theorem avoids_readChecksum_iff
    {mode : ℕ} :
  Proc.Avoids answer true Error.IsPanic
      (readChecksum checksumLen mode : Session Reply (Option (List UInt8))) w ↔
    (0 < checksumLen ∧ FileType.fromMode mode = .regular → checksumLen < 9223372036854775808)
  := by
  unfold readChecksum
  split
  · next h => rw [imp_iff_right h, Proc.avoids_map_iff, avoids_readString_iff]
  · next h => simp only [h, Proc.avoids_pure, false_implies]

theorem avoids_readFields_iff
    (name : Option Name × Name) :
  Proc.Avoids answer true Error.IsPanic
      (readFields protocol checksumLen xflags prev name : Session Reply FileInfo) w ↔
    FieldsFit answer protocol checksumLen xflags prev w
  := by
  unfold readFields FieldsFit
  rw [Proc.avoids_bind_iff, avoids_readVarlong_iff (by decide) (by decide),
    and_iff_right (varlongFits_three _)]
  apply Proc.after_congr
  intro size w
  rw [Proc.avoids_bind_iff, avoids_readModtime_iff]
  apply and_congr_right'
  apply Proc.after_congr
  intro modtime w
  rw [Proc.avoids_bind_iff, avoids_readModNsec_iff]
  apply and_congr_right'
  apply Proc.after_congr
  intro modNsec w
  rw [Proc.avoids_bind_iff, and_iff_right (avoids_readMode w)]
  apply Proc.after_congr
  intro mode w
  rw [Proc.avoids_bind_iff, avoids_readId_iff]
  apply and_congr_right'
  apply Proc.after_congr
  intro uid w
  rw [Proc.avoids_bind_iff, avoids_readId_iff]
  apply and_congr_right'
  apply Proc.after_congr
  intro gid w
  rw [Proc.avoids_bind_iff, avoids_readRdev_iff]
  apply and_congr_right'
  apply Proc.after_congr
  intro rdev w
  rw [Proc.avoids_bind_iff, avoids_readTarget_iff]
  apply and_congr_right'
  apply Proc.after_congr
  intro linkTarget w
  rw [Proc.avoids_map_iff, avoids_readChecksum_iff]

theorem avoids_readFollower_iff
    (name : Option Name × Name) (files : List FileInfo) (ndxStart : ℤ) :
  Proc.Avoids answer true Error.IsPanic
      (readFollower name files ndxStart : Session Reply FileInfo) w ↔
    varintFits w.input = true
  := by
  unfold readFollower
  rw [Proc.avoids_bind_iff, avoids_readVarint_iff]
  apply and_iff_left
  intro ndx w _
  dsimp only
  split
  · apply Proc.avoids_pure
  · apply Proc.avoids_throw_iff.mpr
    exact fun h => h

theorem avoids_recvFileEntryInner_iff
    {files : List FileInfo} :
  Proc.Avoids answer true Error.IsPanic
      (recvFileEntryInner protocol checksumLen xflags files.getLast? files
        ({} : FileList).ndxStart : Session Reply FileInfo) w ↔
    EntryFits answer protocol checksumLen xflags files w
  := by
  unfold recvFileEntryInner EntryFits
  rw [Proc.avoids_bind_iff, avoids_readName_iff]
  apply and_congr_right'
  apply Proc.after_congr
  intro name w
  split
  · apply avoids_readFollower_iff
  · apply avoids_readFields_iff

/-! ### Reading a list -/

theorem avoids_recvIdList_iff
    {preserved : Bool} :
  Proc.Avoids answer true Error.IsPanic (recvIdList preserved : Session Reply Unit) w ↔
    IdListFits answer preserved w
  := by
  unfold recvIdList IdListFits
  cases preserved with
  | false => simp [Proc.avoids_pure]
  | true =>
      have hround : ∀ w : Endpoint H UInt8,
          Proc.Avoids answer true Error.IsPanic (recvIdEntry () : Session Reply _) w ↔
            varintFits w.input = true := by
        intro w
        unfold recvIdEntry
        rw [Proc.avoids_bind_iff, avoids_readVarint_iff]
        apply and_iff_left
        intro id w _
        split
        · apply Proc.avoids_pure
        · apply Proc.avoids_map_iff.mpr (avoids_skipIdName w)
      rw [if_pos rfl, imp_iff_right rfl, Proc.avoids_loop_iff]
      constructor
      · intro h w' hrounds
        apply (hround w').mp (h () w' hrounds)
      · intro h _ w' hrounds
        apply (hround w').mpr (h w' hrounds)

theorem avoids_recvTrailer_iff
    {preserveUid preserveGid varintFlags incRecurse : Bool} :
  Proc.Avoids answer true Error.IsPanic (recvTrailer protocol preserveUid preserveGid varintFlags
      incRecurse : Session Reply Unit) w ↔
    TrailerFits answer protocol preserveUid preserveGid varintFlags incRecurse w
  := by
  have herror : Proc.Avoids answer true Error.IsPanic
      (recvTrailer.recvInlineError varintFlags : Session Reply Unit) w ↔
        (varintFlags = true → varintFits w.input = true) := by
    unfold recvTrailer.recvInlineError
    split
    · next h => rw [imp_iff_right h, Proc.avoids_map_iff, avoids_readVarint_iff]
    · next h => simp [h, Proc.avoids_pure]
  unfold recvTrailer TrailerFits
  rw [Proc.avoids_bind_iff, herror]
  apply and_congr_right'
  apply Proc.after_congr
  intro _ w
  split
  · next h =>
    rw [imp_iff_right (Bool.not_eq_true _ ▸ h.1), imp_iff_right h.2, Proc.avoids_bind_iff,
      avoids_recvIdList_iff]
    apply and_congr_right'
    apply Proc.after_congr
    intro _ w
    apply avoids_recvIdList_iff
  · next h =>
    have hnot : ¬ (incRecurse = false ∧ 30 ≤ protocol) := by
      simpa using h
    split
    · have hint : Proc.Avoids answer true Error.IsPanic (do
          let _ ← readInt
          pure () : Session Reply Unit) w := Proc.avoids_map_iff.mpr (avoids_readInt w)
      apply iff_of_true hint
      intro hi hp
      cases hnot ⟨hi, hp⟩
    · apply iff_of_true (Proc.avoids_pure _ _)
      intro hi hp
      cases hnot ⟨hi, hp⟩

section Lists

variable {preserveUid preserveGid : Bool} {compatFlags : ℕ} {files : List FileInfo}

theorem avoids_recvNext_iff :
  Proc.Avoids answer true Error.IsPanic
      (recvNext protocol checksumLen preserveUid preserveGid compatFlags files :
        Session Reply (List FileInfo ⊕ List FileInfo)) w ↔
    NextFits answer protocol checksumLen preserveUid preserveGid compatFlags files w
  := by
  unfold recvNext NextFits
  rw [Proc.avoids_bind_iff, avoids_readXflags_iff]
  apply and_congr_right'
  apply Proc.after_congr
  intro xflags w
  split
  · rw [Proc.avoids_map_iff, avoids_recvTrailer_iff]
  · rw [Proc.avoids_map_iff, avoids_recvFileEntryInner_iff]

/-- The receiver panics when it comes to something that does not fit. -/
theorem avoids_recvFileListEx_iff :
  Proc.Avoids answer true Error.IsPanic
      (recvFileListEx protocol checksumLen preserveUid preserveGid compatFlags :
        Session Reply FileList) w ↔
    ∀ files w', Proc.Rounds answer true (recvNext protocol checksumLen preserveUid preserveGid
        compatFlags : List FileInfo → Session Reply _) ([], w) (files, w') →
      NextFits answer protocol checksumLen preserveUid preserveGid compatFlags files w'
  := by
  unfold recvFileListEx
  rw [Proc.avoids_map_iff, Proc.avoids_loop_iff]
  apply forall_congr'
  intro files
  apply forall_congr'
  intro w'
  rw [avoids_recvNext_iff]

end Lists

/-! ### Every list comes to an end -/

theorem halts_readString
    (len : ℕ) :
  Proc.Halts answer (readString len : Session Reply (List UInt8)) 0
  := by
  apply (halts_lift _).andThen
  intro _
  apply halts_readBytes

theorem halts_readXflags
    (protocol : ℕ) (varintFlags : Bool) :
  Proc.Halts answer (readXflags protocol varintFlags : Session Reply ℕ) 1
  := by
  have hhigh : ∀ flags : ℕ, Proc.Halts answer
      (readXflags.readHighFlags protocol flags : Session Reply ℕ) 0 := by
    intro flags
    unfold readXflags.readHighFlags
    split
    · apply halts_readByte_zero.map
    · apply Proc.halts_pure
  unfold readXflags
  split
  · apply halts_readVarint.map
  · apply halts_readByte.first
    intro b
    split
    · apply Proc.halts_pure
    · apply (hhigh _).andThen
      intro flags
      split
      · apply halts_readVarint_zero.map
      · apply Proc.halts_pure

theorem halts_readName
    (xflags : ℕ) (prev : Option FileInfo) :
  Proc.Halts answer (readName xflags prev : Session Reply Name) 0
  := by
  have hsame : Proc.Halts answer (readSameLen xflags : Session Reply ℕ) 0 := by
    unfold readSameLen
    split
    · apply halts_readByte_zero.map
    · apply Proc.halts_pure
  have hrest : Proc.Halts answer (readRestLen xflags : Session Reply ℕ) 0 := by
    unfold readRestLen
    split
    · apply halts_readVarint_zero.map
    · apply halts_readByte_zero.map
  apply hsame.andThen
  intro same
  apply hrest.andThen
  intro restLen
  apply (halts_lift _).andThen
  intro shared
  apply (halts_readString _).map

theorem halts_skipIdName :
  Proc.Halts answer (skipIdName : Session Reply Unit) 0
  := by
  apply halts_readByte_zero.andThen
  intro len
  apply (halts_readBytes _).map

theorem halts_readId
    (protocol : ℕ) (same nameFollows : Bool) (prevId : Option ℕ) :
  Proc.Halts answer (readId protocol same nameFollows prevId : Session Reply ℕ) 0
  := by
  unfold readId
  split
  · apply Proc.halts_pure
  split
  · apply halts_readVarint_zero.andThen
    intro id
    split
    · apply halts_skipIdName.map
    · apply Proc.halts_pure
  · apply halts_readInt.map

theorem halts_readFields
    (protocol checksumLen xflags : ℕ) (prev : Option FileInfo) (name : Option Name × Name) :
  Proc.Halts answer
    (readFields protocol checksumLen xflags prev name : Session Reply FileInfo) 0
  := by
  apply (halts_readVarlong 3).andThen
  intro size
  apply Proc.Halts.andThen
  · unfold readModtime
    split_ifs
    · apply Proc.halts_pure
    · apply halts_readVarlong
    · apply halts_readInt
  intro modtime
  apply Proc.Halts.andThen
  · unfold readModNsec
    split_ifs
    · apply halts_readVarint_zero.map
    · apply Proc.halts_pure
  intro modNsec
  apply Proc.Halts.andThen
  · unfold readMode
    split_ifs
    · apply Proc.halts_pure
    · apply halts_readInt.map
  intro mode
  apply (halts_readId _ _ _ _).andThen
  intro uid
  apply (halts_readId _ _ _ _).andThen
  intro gid
  apply Proc.Halts.andThen
  · unfold readRdev
    split
    · apply halts_readVarint_zero.andThen
      intro major
      split
      · apply halts_readVarint_zero.map
      · apply halts_readInt.map
    · apply Proc.halts_pure
  intro rdev
  apply Proc.Halts.andThen
  · unfold readTarget
    split_ifs
    · apply halts_readVarint_zero.andThen
      intro len
      apply (halts_readString _).map
    · apply Proc.halts_pure
  intro linkTarget
  apply Proc.Halts.map
  unfold readChecksum
  split_ifs
  · apply (halts_readString _).map
  · apply Proc.halts_pure

theorem halts_recvFileEntryInner
    (protocol checksumLen xflags : ℕ) (prev : Option FileInfo) (files : List FileInfo)
    (ndxStart : ℤ) :
  Proc.Halts answer (recvFileEntryInner protocol checksumLen xflags prev files ndxStart :
    Session Reply FileInfo) 0
  := by
  apply (halts_readName _ _).andThen
  intro name
  split
  · apply halts_readVarint_zero.andThen
    intro ndx
    dsimp only
    split
    · apply Proc.halts_pure
    · apply Proc.halts_throw
  · apply halts_readFields

theorem halts_recvIdList
    (preserved : Bool) :
  Proc.Halts answer (recvIdList preserved : Session Reply Unit) 0
  := by
  unfold recvIdList
  split
  · apply Proc.halts_loop
    intro _
    apply halts_readVarint.first
    intro id
    split
    · apply Proc.halts_pure
    · apply halts_skipIdName.map
  · apply Proc.halts_pure

theorem halts_recvTrailer
    (protocol : ℕ) (preserveUid preserveGid varintFlags incRecurse : Bool) :
  Proc.Halts answer (recvTrailer protocol preserveUid preserveGid varintFlags incRecurse :
    Session Reply Unit) 0
  := by
  apply Proc.Halts.andThen
  · unfold recvTrailer.recvInlineError
    split
    · apply halts_readVarint_zero.map
    · apply Proc.halts_pure
  intro _
  split_ifs
  · apply (halts_recvIdList _).andThen
    intro _
    apply halts_recvIdList
  · apply halts_readInt.map
  · apply Proc.halts_pure

/-- The receiver of a list comes to an end on every input. -/
theorem halts_recvFileListEx
    (protocol checksumLen : ℕ) (preserveUid preserveGid : Bool) (compatFlags : ℕ) :
  Proc.Halts answer (recvFileListEx protocol checksumLen preserveUid preserveGid compatFlags :
    Session Reply FileList) 0
  := by
  apply Proc.Halts.map
  apply Proc.halts_loop
  intro files
  apply (halts_readXflags _ _).first
  intro xflags
  split
  · apply (halts_recvTrailer _ _ _ _ _).map
  · apply (halts_recvFileEntryInner _ _ _ _ _ _).map

/-! ### Malformed lists -/

theorem decoded_iff
    {preserveUid preserveGid : Bool} {compatFlags : ℕ} :
  Proc.Survives answer Error.IsPanic
      (recvFileListEx protocol checksumLen preserveUid preserveGid compatFlags :
        Session Reply FileList) w ↔
    ∀ files w', Proc.Rounds answer true (recvNext protocol checksumLen preserveUid preserveGid
        compatFlags : List FileInfo → Session Reply _) ([], w) (files, w') →
      NextFits answer protocol checksumLen preserveUid preserveGid compatFlags files w'
  := by
  rw [(halts_recvFileListEx _ _ _ _ _).survives_iff, avoids_recvFileListEx_iff]

/-- The receiver of a list returns a list or an error on every input, exactly when everything
fits that it comes to in the input. -/
theorem list_decoded_iff
    (answer : H → (x : X) → Option (Reply x × H)) (protocol checksumLen : ℕ)
    (preserveUid preserveGid : Bool) (compatFlags : ℕ) (w : Endpoint H UInt8) :
  Proc.Survives answer Error.IsPanic
      (recvFileListEx protocol checksumLen preserveUid preserveGid compatFlags :
        Session Reply FileList) w ↔
    ∀ files w', Proc.Rounds answer true (recvNext protocol checksumLen preserveUid preserveGid
        compatFlags : List FileInfo → Session Reply _) ([], w) (files, w') →
      NextFits answer protocol checksumLen preserveUid preserveGid compatFlags files w'
  := decoded_iff

/-- A marker that announces six bytes makes the receiver panic. -/
theorem list_not_decoded :
  ¬ Proc.Survives noHost Error.IsPanic
    (recvFileListEx 31 16 false false 128 : Session (fun _ => Unit) FileList)
    { host := (), input := [0xFC], buffer := [], sent := [] }
  := by
  rw [decoded_iff]
  intro h
  have hnext := h [] _ Relation.ReflTransGen.refl
  have hflags : varintFits [0xFC] = true := hnext.1
  cases hflags
