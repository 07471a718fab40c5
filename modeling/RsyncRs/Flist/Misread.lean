import RsyncRs.Flist.NameSharing

/-!
# Entries that are not received as they were sent

An entry that is received as it was sent may be sent: each of the conditions on it is
needed.
-/

variable {X : Type} {Reply : X → Type} {H : Type}
  {answer : H → (x : X) → Option (Reply x × H)}

/-! ### Reading too much or too little -/

/-- An integer of variable width is decided by its marker and the bytes that this announces. -/
theorem readVarint_cases
    (ch : UInt8) {rest : List UInt8} (hrest : rest.length = extraBytes ch) :
  (∃ e, Proc.Rejects answer (readVarint : Session Reply ℤ) (ch :: rest) e) ∨
    ∃ x, Proc.Reads answer (readVarint : Session Reply ℤ) (ch :: rest) x
  := by
  have hbyte : Proc.Reads answer (readByte : Session Reply UInt8) [ch] ch := reads_readByte ch
  unfold readVarint
  by_cases h0 : extraBytes ch = 0
  · have hnil : rest = [] := List.length_eq_zero_iff.mp (hrest.trans h0)
    apply Or.inr
    use ch.toNat
    rw [hnil]
    apply reads_readByte_bind
    rw [if_pos h0]
    apply Proc.reads_pure
  by_cases h6 : 5 < extraBytes ch
  · apply Or.inl
    use .panic "range end index out of range for slice"
    have hr : Proc.Rejects answer (throw (.panic "range end index out of range for slice") :
        Session Reply ℤ) rest (.panic "range end index out of range for slice") :=
      (Proc.rejects_throw _).append rest
    apply hbyte.bind_rejects
    rw [if_neg h0, if_pos h6]
    apply hr
  by_cases h5 : 5 ≤ extraBytes ch
  · apply Or.inl
    use .panic "index out of bounds"
    apply hbyte.bind_rejects
    rw [if_neg h0, if_neg h6, ← List.append_nil rest]
    apply (reads_readBytes rest hrest).bind_rejects
    rw [if_pos h5]
    apply Proc.rejects_throw
  · refine .inr ⟨wrapI32 (ofLeBytes ((rest ++ [markerBits ch (extraBytes ch)]).take 4)), ?_⟩
    apply reads_readByte_bind
    rw [if_neg h0, if_neg h6]
    apply (reads_readBytes rest hrest).bind_nil
    rw [if_neg h5]
    apply Proc.reads_pure

/-- A reference to another entry is shorter than the size of a file. -/
theorem not_reads_follower
    (host : H) (name : Option Name × Name) (received : List FileInfo) {size : ℤ}
    (rest : List UInt8) (d : FileInfo) :
  ¬ Proc.Reads answer (readFollower name received 0 : Session Reply FileInfo)
    (encodeVarlong size 3 ++ rest) d
  := by
  intro hread
  have hlen : (leBytes 8 size).length = 8 := length_leBytes 8 size
  obtain ⟨ch, low, hmark, hlow, -⟩ := markedBytes_spec (leBytes 8 size) 3 (by omega) (by omega)
    (by omega)
  rw [hlen] at hmark
  have henc : encodeVarlong size 3 = ch :: low := hmark
  have hshort : (low.take (extraBytes ch)).length = extraBytes ch := by
    rw [List.length_take]
    omega
  have hsplit : encodeVarlong size 3 ++ rest =
      (ch :: low.take (extraBytes ch)) ++ (low.drop (extraBytes ch) ++ rest) := by
    rw [henc, List.cons_append, List.cons_append, ← List.append_assoc, List.take_append_drop]
  rw [hsplit] at hread
  rcases readVarint_cases ch hshort with ⟨e, hrejects⟩ | ⟨x, hreads⟩
  · apply hrejects.bind.not_reads_append host hread
  · -- the reference ends before the size does
    have hafter := hreads.of_bind hread
    have hne : low.drop (extraBytes ch) ++ rest ≠ [] := by
      intro h
      have hl := congrArg List.length h
      rw [List.length_append, List.length_drop, List.length_nil] at hl
      omega
    revert hafter
    dsimp only
    split
    · intro hafter
      apply hne ((Proc.reads_pure _).eq_nil host hafter)
    · intro hafter
      apply (Proc.rejects_throw _).not_reads_append host hafter

/-! ### Paths of entries received -/

theorem path_of_readFollower
    {closed : Bool} {name : Option Name × Name} {received : List FileInfo} {ndxStart : ℤ}
    {w w' : Endpoint H UInt8} {d : FileInfo}
    (h : Proc.Returns answer closed
      (readFollower name received ndxStart : Session Reply FileInfo) w d w') :
  (d.dirname, d.name) = name
  := by
  obtain ⟨x, w₁, -, h⟩ := h.bind_inv
  revert h
  dsimp only
  split
  · intro h
    rw [h.pure_inv.1]
  · intro h
    cases (Prog.Ends.of_ret h).1

theorem of_readLastFields
    {closed : Bool} {protocol checksumLen : ℕ} {prev : Option FileInfo}
    {name : Option Name × Name} {first : FirstFields} {w w' : Endpoint H UInt8} {d : FileInfo}
    (h : Proc.Returns answer closed
      (readLastFields protocol checksumLen prev name first : Session Reply FileInfo) w d w') :
  (d.dirname, d.name) = name ∧ d.modtime = first.modtime ∧ d.mode = first.mode
  := by
  obtain ⟨rdev, w₁, -, h⟩ := h.bind_inv
  obtain ⟨linkTarget, w₂, -, h⟩ := h.bind_inv
  obtain ⟨checksum, w₃, -, h⟩ := h.bind_inv
  rw [h.pure_inv.1]
  exact ⟨rfl, rfl, rfl⟩

theorem path_of_readFields
    {closed : Bool} {protocol checksumLen xflags : ℕ} {prev : Option FileInfo}
    {name : Option Name × Name} {w w' : Endpoint H UInt8} {d : FileInfo}
    (h : Proc.Returns answer closed
      (readFields protocol checksumLen xflags prev name : Session Reply FileInfo) w d w') :
  (d.dirname, d.name) = name
  := by
  rw [readFields_eq] at h
  obtain ⟨first, w₁, -, h⟩ := h.bind_inv
  apply (of_readLastFields h).1

theorem path_eq_of_name
    {d : FileInfo} {full : Name} (h : (d.dirname, d.name) = splitName full) :
  d.path = (named full).path
  := by
  unfold FileInfo.path named
  rw [← h]

/-! ### Fields -/

section Fields

variable {protocol checksumLen : ℕ} {preserve : Preserve} {xflags : ℕ}
  {prev : Option FileInfo} {fi d : FileInfo}

/-- When the fields of an entry are read as they were written, then so are the last ones. -/
theorem reads_lastFields
    (host : H) (hfi : fi.Typed) (name : Option Name × Name)
    (hfit : FlagsFit preserve xflags prev fi) {bs : List UInt8}
    (hwrites : Proc.Writes answer
      (writeFields protocol checksumLen preserve xflags fi : Session Reply Unit) bs ())
    (hreads : Proc.Reads answer
      (readFields protocol checksumLen xflags prev name : Session Reply FileInfo) bs d) :
  ∃ cs, Proc.Writes answer
      (writeLastFields protocol checksumLen preserve fi : Session Reply Unit) cs () ∧
    Proc.Reads answer (readLastFields protocol checksumLen prev name
      (receivedFirst protocol xflags prev fi) : Session Reply FileInfo) cs d
  := by
  rw [writeFields_eq] at hwrites
  rw [readFields_eq] at hreads
  obtain ⟨fs, hwrites₁, hreads₁⟩ : Proc.Carries answer
      (writeFirstFields protocol preserve xflags fi : Session Reply Unit) ()
      (readFirstFields protocol xflags prev) (receivedFirst protocol xflags prev fi) :=
    carries_firstFields hfi hfit
  obtain ⟨cs, hwrites₂⟩ : Proc.Emits answer
      (writeLastFields protocol checksumLen preserve fi : Session Reply Unit) :=
    emits_writeLastFields _ _ _ _
  use cs, hwrites₂
  rw [hwrites.unique host (hwrites₁.bind hwrites₂)] at hreads
  apply hreads₁.of_bind hreads

theorem expectsRdev_of_sendsRdev
    (h : sendsRdev protocol preserve fi = true) :
  expectsRdev protocol fi.mode = true
  := by
  unfold sendsRdev FileInfo.fileType at h
  unfold expectsRdev
  grind

/-- A file with the numbers of a device has neither a target nor a checksum. -/
theorem kind_of_expectsRdev
    (h : expectsRdev protocol fi.mode = true) :
  fi.isSymlink = false ∧ fi.isRegular = false
  := by
  unfold expectsRdev at h
  unfold FileInfo.isSymlink FileInfo.isRegular FileInfo.fileType
  grind

/-- The numbers of a device are sent when they are read as they were written. -/
theorem sendsRdev_of_reads
    (host : H) {name : Option Name × Name} {first : FirstFields} (hmode : first.mode = fi.mode)
    {cs : List UInt8}
    (hwrites : Proc.Writes answer
      (writeLastFields protocol checksumLen preserve fi : Session Reply Unit) cs ())
    (hreads : Proc.Reads answer
      (readLastFields protocol checksumLen prev name first : Session Reply FileInfo) cs d) :
  sendsRdev protocol preserve fi = expectsRdev protocol fi.mode
  := by
  cases hs : sendsRdev protocol preserve fi with
  | true => rw [expectsRdev_of_sendsRdev hs]
  | false =>
      cases he : expectsRdev protocol fi.mode with
      | false => rfl
      | true =>
          obtain ⟨hsym, hreg⟩ := kind_of_expectsRdev he
          -- nothing is written, and the numbers are awaited
          have hnil : Proc.Writes answer
              (writeLastFields protocol checksumLen preserve fi : Session Reply Unit) [] () := by
            unfold writeLastFields writeRdev writeTarget writeChecksum
            rw [hs, hsym, hreg]
            simp only [Bool.false_eq_true, if_false, and_false, pure_bind]
            apply Proc.writes_pure
          rw [hwrites.unique host hnil] at hreads
          have hneeds : Proc.NeedsInput answer (readRdev protocol first.mode prev :
              Session Reply (ℕ × ℕ)) := by
            unfold readRdev
            rw [hmode, he, if_pos rfl]
            apply Proc.NeedsInput.bind (Proc.needsInput_read _).bind
          cases hneeds.bind.not_reads_nil host hreads

/-- A length that does not fit is read as one that no buffer can have, or as a much smaller
one. -/
theorem asUsize_wrapI32_of_ge
    {len : ℕ} (h : 2147483648 ≤ len) :
  9223372036854775808 ≤ asUsize (wrapI32 len) ∨ asUsize (wrapI32 len) + 4294967296 ≤ len
  := by
  unfold asUsize wrapI32
  omega

/-- A string whose length does not fit is not read to its end. -/
theorem not_reads_longString
    {α : Type} (host : H) {str : List UInt8} (h : 2147483648 ≤ str.length)
    {f : List UInt8 → Session Reply α}
    (hf : ∀ t cs a, Proc.Reads answer (f t) cs a → cs = []) (a : α) :
  ¬ Proc.Reads answer (readString (asUsize (wrapI32 str.length)) >>= f) str a
  := by
  intro hreads
  by_cases hhuge : 9223372036854775808 ≤ asUsize (wrapI32 str.length)
  · apply (rejects_readString hhuge).bind.not_reads_append host hreads
  · have hsmall := (asUsize_wrapI32_of_ge h).resolve_left hhuge
    generalize asUsize (wrapI32 str.length) = m at *
    have htake : (str.take m).length = m := by
      rw [List.length_take]
      omega
    rw [← List.take_append_drop m str] at hreads
    have hnil := hf _ _ _ ((reads_readString _ htake (not_le.mp hhuge)).of_bind hreads)
    have hlen := congrArg List.length hnil
    rw [List.length_drop, List.length_nil] at hlen
    omega

/-- The target of a link fits when it is read as it was written. -/
theorem target_of_reads
    (host : H) (hfi : fi.Typed) {name : Option Name × Name} {first : FirstFields}
    (hmode : first.mode = fi.mode)
    (hrdev : sendsRdev protocol preserve fi = expectsRdev protocol fi.mode) {cs : List UInt8}
    (hwrites : Proc.Writes answer
      (writeLastFields protocol checksumLen preserve fi : Session Reply Unit) cs ())
    (hreads : Proc.Reads answer
      (readLastFields protocol checksumLen prev name first : Session Reply FileInfo) cs d)
    (hsym : fi.isSymlink = true) :
  (targetOf fi).length < 2147483648
  := by
  have htype : FileType.fromMode fi.mode = .symlink := of_decide_eq_true hsym
  have hreg : fi.isRegular = false := by
    rw [FileInfo.isRegular, FileInfo.fileType, htype]
    rfl
  by_contra hlong
  -- the numbers of a device, the length of the target, and the target
  obtain ⟨bs, hwrites₁, hreads₁⟩ : Proc.Carries answer
      (writeRdev protocol preserve fi : Session Reply Unit) ()
      (readRdev protocol fi.mode prev) (receivedRdev protocol prev fi) := carries_rdev hfi hrdev
  obtain ⟨ls, hwrites₂, hreads₂⟩ : Proc.Carries answer
      (writeVarint (wrapI32 (targetOf fi).length) : Session Reply Unit) () readVarint
      (wrapI32 (targetOf fi).length) := carries_varint (isI32_wrapI32 _)
  have hbytes : cs = bs ++ (ls ++ targetOf fi) := by
    apply hwrites.unique host
    apply hwrites₁.bind
    unfold writeTarget writeChecksum
    rw [hsym, hreg]
    simp only [if_true, Bool.false_eq_true, and_false, if_false]
    rw [← List.append_nil (ls ++ targetOf fi)]
    apply (hwrites₂.bind (writes_writeAll _)).bind (Proc.writes_pure _)
  unfold readLastFields at hreads
  rw [hmode, hbytes] at hreads
  have hreads' := hreads₁.of_bind hreads
  generalize receivedRdev protocol prev fi = rdev at hreads'
  obtain ⟨rdevMajor, rdevMinor⟩ := rdev
  unfold readTarget at hreads'
  dsimp only at hreads'
  rw [if_pos htype, bind_assoc] at hreads'
  have hafter := hreads₂.of_bind hreads'
  rw [bind_assoc] at hafter
  apply not_reads_longString host (not_lt.mp hlong) _ d hafter
  intro t cs a hrest
  unfold readChecksum at hrest
  rw [pure_bind, if_neg (by rw [htype]; simp), pure_bind] at hrest
  apply (Proc.reads_pure _).eq_nil host hrest

end Fields

/-! ### Entries -/

section Entries

variable {protocol checksumLen : ℕ} {preserve : Preserve} {varintFlags : Bool}
  {sent received : List FileInfo} {fi d : FileInfo}

/-- Read what follows the name of an entry. -/
def readAfterName (protocol checksumLen xflags : ℕ) (received : List FileInfo)
    (name : Option Name × Name) : Session Reply FileInfo :=
  if 30 ≤ protocol ∧ hasFlag xflags xmitHlinked ∧ ¬ hasFlag xflags xmitHlinkFirst then
    readFollower name received 0
  else
    readFields protocol checksumLen xflags received.getLast? name

/-- The entry received is the last one of the list. -/
theorem injective_snoc
    (received : List FileInfo) :
  Function.Injective fun e : FileInfo =>
    (Sum.inl (received ++ [e]) : List FileInfo ⊕ List FileInfo)
  := by
  intro a b hab
  have happ := List.append_cancel_left (Sum.inl.inj hab)
  apply List.head_eq_of_cons_eq happ

/-- What follows the name does not change the name. -/
theorem path_of_readAfterName
    (host : H) {xflags : ℕ} {full : Name} {bs : List UInt8}
    (h : Proc.Reads answer (readAfterName protocol checksumLen xflags received (splitName full) :
      Session Reply FileInfo) bs d) :
  d.path = (named full).path
  := by
  obtain ⟨w, w', h⟩ := h.returns host
  unfold readAfterName at h
  split at h
  · apply path_eq_of_name (path_of_readFollower h)
  · apply path_eq_of_name (path_of_readFields h)

/-- An entry that is read as it was written, with its path, may be sent as far as its name
goes, and what follows its name is read as it was written. -/
theorem reads_afterName
    (host : H) (hprev : prevName received.getLast? = prevName sent.getLast?)
    (hfi : isUtf8 fi.path = true) (compatFlags : ℕ)
    (hold : hasFlag compatFlags cfVarintFlistFlags = false → protocol < 28 →
      hasFlag (sentFlags protocol preserve false sent.getLast? fi) xmitExtendedFlags = false)
    (hcarries : Proc.Carries answer
      (sendFileEntry protocol checksumLen preserve (hasFlag compatFlags cfVarintFlistFlags)
        sent.getLast? fi : Session Reply Unit) ()
      (recvNext protocol checksumLen preserve.uid preserve.gid compatFlags received)
      (.inl (received ++ [d])))
    (hpath : d.path = fi.path) :
  NameOk sent.getLast? fi ∧
    ∃ fields, Proc.Writes answer (writeAfterName protocol checksumLen preserve
        (sentFlags protocol preserve (hasFlag compatFlags cfVarintFlistFlags) sent.getLast? fi)
        fi : Session Reply Unit) fields () ∧
      Proc.Reads answer (readAfterName protocol checksumLen
        (sentFlags protocol preserve (hasFlag compatFlags cfVarintFlistFlags) sent.getLast? fi)
        received (splitName fi.path) : Session Reply FileInfo) fields d
  := by
  obtain ⟨bs, hsend, hrecv⟩ := hcarries
  have hlt := entryFlags_lt protocol preserve sent.getLast? fi
    (sameLen fi.path (prevName sent.getLast?))
    (fi.path.length - sameLen fi.path (prevName sent.getLast?))
  unfold recvNext at hrecv
  generalize hasFlag compatFlags cfVarintFlistFlags = varintFlags at *
  have hb : isCharBoundary fi.path (sameLen fi.path (prevName sent.getLast?)) = true := by
    by_contra hb
    have hrejects := rejects_sendFileEntry answer protocol checksumLen preserve varintFlags
      (Bool.not_eq_true _ ▸ hb)
    apply hrejects.not_writes host hsend
  obtain ⟨flags, fields, hflags, hfields, hsend'⟩ :=
    writes_sendFileEntry answer protocol checksumLen preserve varintFlags hb
  -- the flags
  obtain ⟨flags', hflags', hread⟩ : Proc.Carries answer
      (writeXflags varintFlags (sentFlags protocol preserve varintFlags sent.getLast? fi) :
        Session Reply Unit) () (readXflags protocol varintFlags)
      (sentFlags protocol preserve varintFlags sent.getLast? fi) := by
    apply carries_xflags varintFlags fi.isDir hlt (wireFlags_ne_endlist _ _ _ _ _ _ _ _)
    rintro rfl hp
    apply hold rfl hp
  rw [hsend.unique host hsend', hflags.unique host hflags'] at hrecv
  have hentry := hread.of_bind hrecv
  have hne : sentFlags protocol preserve varintFlags sent.getLast? fi ≠ 0 :=
    wireFlags_ne_zero _ _ _
  rw [if_neg hne] at hentry
  -- the name
  have hinner := Proc.Reads.of_map (injective_snoc received) hentry
  unfold recvFileEntryInner at hinner
  rcases readName_encodeName answer protocol preserve varintFlags hprev hfi with
    hrejects | ⟨hshort, hreads⟩ | ⟨pre, post, full, henc, hshorter, hreads⟩
  · cases hrejects.bind.not_reads_append host hinner
  · have hafter := hreads.of_bind hinner
    have hnamed := path_of_readAfterName host hafter
    refine ⟨⟨hb, hshort, ?_⟩, fields, hfields, hafter⟩
    rw [hpath] at hnamed
    apply not_isRootChild_of_path hnamed.symm
  · rw [henc, List.append_assoc] at hinner
    have hnamed := path_of_readAfterName host (hreads.of_bind hinner)
    have hle := length_path_named_le full
    rw [← hnamed, hpath] at hle
    omega

/-- A reference that is read refers to an entry that has been received. -/
theorem of_reads_follower
    (host : H) (hfi : fi.Typed) (hndx : 0 ≤ fi.hardLinkFirstNdx) {name : Option Name × Name}
    (h : Proc.Reads answer (readFollower name received 0 : Session Reply FileInfo)
      (encodeVarint fi.hardLinkFirstNdx) d) :
  ∃ first, received[fi.hardLinkFirstNdx.toNat]? = some first ∧ d.size = first.size ∧
    d.mode = first.mode ∧ d.modtime = first.modtime
  := by
  unfold readFollower at h
  rw [← List.append_nil (encodeVarint _)] at h
  have hafter := (reads_readVarint hfi.hardLinkFirstNdx).of_bind h
  dsimp only at hafter
  rw [sub_zero, wrapI32_of_isI32 hfi.hardLinkFirstNdx, if_pos hndx] at hafter
  cases hfirst : received[fi.hardLinkFirstNdx.toNat]? with
  | none =>
      rw [hfirst] at hafter
      obtain ⟨w, w', h⟩ := hafter.returns host
      cases (Prog.Ends.of_ret h).1
  | some first =>
      rw [hfirst] at hafter
      obtain ⟨w, w', h⟩ := hafter.returns host
      use first, rfl
      rw [h.pure_inv.1]
      exact ⟨rfl, rfl, rfl⟩

/-- A modification time that goes through an old protocol fits into it, when the one before
does. -/
theorem isI32_of_receivedModtime
    {prev d : Option FileInfo}
    (htime : ∀ p ∈ prev, preserve.times = true → protocol < 30 → IsI32 p.modtime)
    (ht : preserve.times = true) (hp : protocol < 30)
    (h : fi.modtime =
      receivedModtime protocol (sentFlags protocol preserve varintFlags prev fi) d fi) :
  IsI32 fi.modtime
  := by
  unfold receivedModtime at h
  rw [hasFlag_sameTime, ht, Bool.not_true, Bool.false_or] at h
  cases prev with
  | none =>
      rw [if_neg (by simp), if_neg (by omega)] at h
      rw [h]
      apply isI32_wrapI32
  | some p =>
      by_cases hsame : fi.modtime = p.modtime
      · rw [hsame]
        apply htime p rfl ht hp
      · rw [if_neg (by simpa using hsame), if_neg (by omega)] at h
        rw [h]
        apply isI32_wrapI32

/-- An entry that is received as it was sent may be sent. -/
theorem entryOk_of_carries
    (host : H) (hrel : List.Forall₂ (Agrees preserve) sent received) (hfi : fi.Typed)
    (compatFlags : ℕ)
    (hold : hasFlag compatFlags cfVarintFlistFlags = false → protocol < 28 →
      hasFlag (sentFlags protocol preserve false sent.getLast? fi) xmitExtendedFlags = false)
    (htime : ∀ p ∈ sent.getLast?, preserve.times = true → protocol < 30 → IsI32 p.modtime)
    (hcarries : Proc.Carries answer
      (sendFileEntry protocol checksumLen preserve (hasFlag compatFlags cfVarintFlistFlags)
        sent.getLast? fi : Session Reply Unit) ()
      (recvNext protocol checksumLen preserve.uid preserve.gid compatFlags received)
      (.inl (received ++ [d])))
    (hagrees : Agrees preserve fi d) :
  EntryOk protocol preserve sent fi
  := by
  have hlast := rel_getLast hrel
  obtain ⟨hname, fields, hwrites, hreads⟩ := reads_afterName host (prevName_of_rel hlast)
    hfi.path compatFlags hold hcarries hagrees.path
  generalize hasFlag compatFlags cfVarintFlistFlags = varintFlags at *
  unfold writeAfterName at hwrites
  unfold readAfterName at hreads
  cases hr : refers protocol fi with
  | true =>
      rw [if_pos (refers_iff.mpr hr)] at hreads
      have hr' : 30 ≤ protocol ∧ isHlinkMember fi = true ∧ isHlinkLeader fi = false := by
        simpa [refers, and_assoc] using hr
      by_cases hndx : 0 ≤ fi.hardLinkFirstNdx
      · have hfollower : isHlinkFollower fi = true ∧ 30 ≤ protocol := by
          simp [isHlinkFollower, hr', hndx]
        rw [if_pos hfollower] at hwrites
        rw [hwrites.unique host (writes_writeVarint _)] at hreads
        obtain ⟨first', hfirst', hsize, hmode, hmodtime⟩ := of_reads_follower host hfi hndx hreads
        obtain ⟨hlt', rfl⟩ := List.getElem?_eq_some_iff.mp hfirst'
        have hlt : fi.hardLinkFirstNdx.toNat < sent.length := hrel.length_eq ▸ hlt'
        have hfirst : Agrees preserve sent[fi.hardLinkFirstNdx.toNat] _ := hrel.get hlt hlt'
        refine ⟨hname, ?_, ?_, ?_, fun _ => ⟨hndx, _, List.getElem?_eq_getElem hlt, ?_⟩⟩
        · rw [hr]
          rintro ⟨⟩
        · rw [hr]
          rintro ⟨⟩
        · rw [hr]
          rintro ⟨⟩
        · constructor
          · rfl
          · rw [← hagrees.size, hsize]
            apply hfirst.size.symm
          · rw [← hagrees.mode, hmode]
            apply hfirst.mode.symm
          · intro ht
            rw [← hagrees.modtime ht, hmodtime]
            apply (hfirst.modtime ht).symm
      · have hfollower : ¬ (isHlinkFollower fi = true ∧ 30 ≤ protocol) := by
          simp [isHlinkFollower, hndx]
        obtain ⟨bs, hbs⟩ : ∃ bs, Proc.Writes answer (writeFields protocol checksumLen preserve
            (sentFlags protocol preserve varintFlags sent.getLast? fi) fi : Session Reply Unit)
            (encodeVarlong fi.size 3 ++ bs) () := writes_writeFields _ _ _ _ _
        rw [if_neg hfollower] at hwrites
        rw [hwrites.unique host hbs] at hreads
        cases not_reads_follower host _ _ _ _ hreads
  | false =>
      have hfollower : ¬ (isHlinkFollower fi = true ∧ 30 ≤ protocol) := by
        simp only [refers, isHlinkFollower] at hr ⊢
        grind
      rw [if_neg (refers_iff.not.mpr (by rw [hr]; decide))] at hreads
      rw [if_neg hfollower] at hwrites
      obtain ⟨cs, hwrites', hreads'⟩ := reads_lastFields host hfi _ (flagsFit_sentFlags hlast)
        hwrites hreads
      have hrdev := sendsRdev_of_reads host rfl hwrites' hreads'
      refine ⟨hname, ?_, fun _ => hrdev, fun _ => target_of_reads host hfi rfl hrdev hwrites'
        hreads', ?_⟩
      · intro _ ht hp
        obtain ⟨w, w', hreturns⟩ := hreads'.returns host
        have hmodtime := (of_readLastFields hreturns).2.1
        rw [hagrees.modtime ht] at hmodtime
        apply isI32_of_receivedModtime htime ht hp hmodtime
      · intro h
        rw [hr] at h
        cases h

end Entries
