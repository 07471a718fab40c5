import RsyncRs.Flist.Aligned
import RsyncRs.Flist.Sorted

/-!
# Lists in old protocols

Before protocol 28 the flags of an entry have one byte for the receiver, but the sender may
still announce a second one: for a directory that has nothing in common with the entry before
it, and for the mark that ends a list with an error code.
-/

variable {X : Type} {Reply : X → Type} {H : Type}
  {answer : H → (x : X) → Option (Reply x × H)}

/-- An entry of a regular file, a directory or a symbolic link with a path in ASCII, whose
modification time fits into 32 bits. -/
structure OldEntry (fi : FileInfo) : Prop extends fi.Typed where
  kind : fi.IsOrdinary
  ascii : ∀ b ∈ fi.path, b < 0x80
  time : IsI32 fi.modtime

/-- The two sides agree on the path, the size and the mode of an entry, and on its
modification time, owner and group where these are preserved. -/
structure AgreesWithIds (preserve : Preserve) (fi d : FileInfo) : Prop
    extends Agrees preserve fi d where
  uid : preserve.uid = true → d.uid = fi.uid
  gid : preserve.gid = true → d.gid = fi.gid

/-- The entry has nothing in common with the one before it, and nothing about it is worth a
flag. -/
def sharesNothing (preserve : Preserve) (prev : Option FileInfo) (fi : FileInfo) : Bool :=
  sameLen fi.path (prevName prev) = 0 ∧ fi.path.length ≤ 255 ∧ ¬ isTopDirEntry fi ∧
    preserve.times ∧ preserve.uid ∧ preserve.gid ∧
    prev.all fun p => fi.mode ≠ p.mode ∧ fi.modtime ≠ p.modtime ∧ fi.uid ≠ p.uid ∧
      fi.gid ≠ p.gid

section Flags

variable {protocol : ℕ} {preserve : Preserve} {prev : Option FileInfo} {fi : FileInfo}

/-- An entry that has nothing in common with the one before it has no flags. -/
theorem entryFlags_eq_zero_iff
    (hp : protocol < 28) :
  entryFlags protocol preserve prev fi (sameLen fi.path (prevName prev))
      (fi.path.length - sameLen fi.path (prevName prev)) = 0 ↔
    sharesNothing preserve prev fi = true
  := by
  have h31 : ¬ 31 ≤ protocol := by omega
  have h28 : ¬ 28 ≤ protocol := by omega
  unfold entryFlags sameFlags sharesNothing flagIf
  cases prev with
  | none =>
      simp only [xmitSameName, xmitLongName, xmitTopDir, xmitSameTime, xmitSameUid, xmitSameGid]
      simp [h31, h28, Nat.or_eq_zero_iff]
      grind
  | some p =>
      simp only [xmitSameName, xmitLongName, xmitTopDir, xmitSameMode, xmitSameTime, xmitSameUid,
        xmitSameGid]
      simp [h31, h28, Nat.or_eq_zero_iff]
      grind

/-- Before protocol 28 no flag of an entry has its place in the second byte. -/
theorem entryFlags_and_high
    (hp : protocol < 28) (same restLen : ℕ) :
  entryFlags protocol preserve prev fi same restLen &&& 0xFF00 = 0
  := by
  apply Nat.eq_of_testBit_eq
  intro k
  rw [Nat.testBit_and, Nat.zero_testBit]
  by_cases hk : k < 8
  · have hmask : Nat.testBit 0xFF00 k = false := by
      interval_cases k <;> decide
    rw [hmask, Bool.and_false]
  · rw [testBit_entryFlags, testBit_sameFlags_of_ge preserve prev fi (by omega)]
    have h31 : ¬ 31 ≤ protocol := by omega
    have h28 : ¬ 28 ≤ protocol := by omega
    have h0 : k ≠ 0 ∧ k ≠ 5 ∧ k ≠ 6 := by omega
    simp [h31, h28, Ne.symm h0.1, Ne.symm h0.2.1, Ne.symm h0.2.2]

/-- A directory that has nothing in common with the entry before it is sent with nothing but
the mark of a second byte. -/
theorem sentFlags_of_sharesNothing
    (hp : protocol < 28) (hdir : fi.isDir = true) (h : sharesNothing preserve prev fi = true) :
  sentFlags protocol preserve false prev fi = xmitExtendedFlags
  := by
  rw [sentFlags, (entryFlags_eq_zero_iff hp).mpr h, hdir]
  rfl

/-- Before protocol 28 no other entry has flags with a second byte. -/
theorem not_extended_old
    (hp : protocol < 28) (h : ¬ (fi.isDir = true ∧ sharesNothing preserve prev fi = true)) :
  hasFlag (sentFlags protocol preserve false prev fi) xmitExtendedFlags = false
  := by
  have hhigh : entryFlags protocol preserve prev fi (sameLen fi.path (prevName prev))
      (fi.path.length - sameLen fi.path (prevName prev)) &&& 0xFF00 = 0 :=
    entryFlags_and_high hp _ _
  have hbit := testBit_entryFlags protocol preserve prev fi (sameLen fi.path (prevName prev))
    (fi.path.length - sameLen fi.path (prevName prev)) 2
  rw [testBit_sameFlags_of_ge preserve prev fi (by decide)] at hbit
  rw [← entryFlags_eq_zero_iff hp] at h
  rw [sentFlags, xmitExtendedFlags, hasFlag_one_shiftLeft]
  generalize entryFlags protocol preserve prev fi (sameLen fi.path (prevName prev))
    (fi.path.length - sameLen fi.path (prevName prev)) = xflags at *
  unfold wireFlags
  dsimp only
  rw [if_neg Bool.false_ne_true]
  by_cases hz : xflags = 0
  · have hdir : ¬ fi.isDir = true := fun hdir => h ⟨hdir, hz⟩
    simp only [hz, hdir, xmitTopDir]
    decide
  · have hx : (if xflags = 0 ∧ ¬ fi.isDir = true then xflags ||| xmitTopDir else xflags) =
        xflags := if_neg fun hc => hz hc.1
    rw [hx, if_neg (by simp [hhigh, hz]), hbit]
    simp

end Flags

/-! ### Entries that are misread -/

section Misread

variable {protocol checksumLen : ℕ} {preserve : Preserve} {prev : Option FileInfo}
  {fi d : FileInfo} {received : List FileInfo}

/-- What is written after the name of a directory that has nothing in common with the entry
before it: its size, and four numbers of four bytes. -/
theorem writes_fields_old
    (hp : protocol < 28) (hdir : fi.isDir = true) (huid : preserve.uid = true)
    (hgid : preserve.gid = true) :
  ∃ fs, fs.length = 16 ∧ Proc.Writes answer
    (writeFields protocol checksumLen preserve xmitExtendedFlags fi : Session Reply Unit)
    (encodeVarlong fi.size 3 ++ fs) ()
  := by
  have htype : fi.fileType = .dir := of_decide_eq_true hdir
  have h30 : ¬ 30 ≤ protocol := by omega
  have hflags : hasFlag xmitExtendedFlags xmitSameTime = false ∧
      hasFlag xmitExtendedFlags xmitModNsec = false ∧
      hasFlag xmitExtendedFlags xmitSameMode = false ∧
      hasFlag xmitExtendedFlags xmitSameUid = false ∧
      hasFlag xmitExtendedFlags xmitSameGid = false := by decide
  obtain ⟨htime, hnsec, hmode, huid', hgid'⟩ := hflags
  use leBytes 4 (wrapI32 fi.modtime) ++ (leBytes 4 (wrapI32 fi.mode) ++
    (leBytes 4 (wrapI32 fi.uid) ++ leBytes 4 (wrapI32 fi.gid)))
  constructor
  · simp only [List.length_append, length_leBytes]
  · unfold writeFields writeModtime writeModNsec writeMode writeId writeRdev writeTarget
      writeChecksum
    have hrdev : sendsRdev protocol preserve fi = false :=
      FileInfo.IsOrdinary.not_sendsRdev (.inr (.inl hdir)) _ _
    have hsym : fi.isSymlink = false := by
      rw [FileInfo.isSymlink, htype]
      rfl
    have hreg : fi.isRegular = false := by
      rw [FileInfo.isRegular, htype]
      rfl
    simp only [htime, hnsec, hmode, huid, hgid, huid', hgid', hrdev, hsym, hreg, h30, if_false,
      if_true, Bool.not_false, Bool.and_self, Bool.false_eq_true, and_false, pure_bind]
    apply (writes_writeVarlong fi.size 3).bind
    apply (writes_writeInt _).bind
    apply (writes_writeInt _).bind
    apply (writes_writeInt _).bind
    apply (writes_writeInt _).map

/-- Any four bytes are read as a number. -/
theorem reads_readInt_bytes
    {bs : List UInt8} (h : bs.length = 4) :
  Proc.Reads answer (readInt : Session Reply ℤ) bs (wrapI32 (ofLeBytes bs))
  := (reads_readBytes bs h).map _

/-- Bytes may be taken from the start of a list that has them. -/
theorem exists_append
    {bs : List UInt8} {n : ℕ} (h : n ≤ bs.length) :
  ∃ xs ys, bs = xs ++ ys ∧ xs.length = n
  := ⟨bs.take n, bs.drop n, (List.take_append_drop n bs).symm, List.length_take_of_le h⟩

/-- Without any flags the fields that come first are made of three bytes for the size, when the
first of these is zero, and four numbers of four bytes. -/
theorem reads_firstFields_old
    (hp : protocol < 28) (b c : UInt8) {bs : List UInt8} (h : 16 ≤ bs.length) :
  ∃ first xs ys, bs = xs ++ ys ∧ xs.length = 16 ∧ Proc.Reads answer
    (readFirstFields protocol xmitExtendedFlags prev : Session Reply FirstFields)
    ([0, b, c] ++ xs) first
  := by
  have h30 : ¬ 30 ≤ protocol := by omega
  have hflags : hasFlag xmitExtendedFlags xmitSameTime = false ∧
      hasFlag xmitExtendedFlags xmitModNsec = false ∧
      hasFlag xmitExtendedFlags xmitSameMode = false ∧
      hasFlag xmitExtendedFlags xmitSameUid = false ∧
      hasFlag xmitExtendedFlags xmitSameGid = false := by decide
  obtain ⟨htime, hnsec, hmode, huid, hgid⟩ := hflags
  have hsize : Proc.Reads answer (readVarlong 3 : Session Reply ℤ) [0, b, c]
      (wrapI64 (ofLeBytes [b, c, 0])) := by
    unfold readVarlong
    apply (reads_readBytes [0, b, c] rfl).bind_nil
    dsimp only
    have h0 : extraBytes ([0, b, c].headD 0) = 0 := show extraBytes 0 = 0 by decide
    rw [if_pos h0]
    apply Proc.reads_pure
  obtain ⟨b₁, bs, rfl, h₁⟩ := exists_append (show 4 ≤ bs.length by omega)
  rw [List.length_append] at h
  obtain ⟨b₂, bs, rfl, h₂⟩ := exists_append (show 4 ≤ bs.length by omega)
  rw [List.length_append] at h
  obtain ⟨b₃, bs, rfl, h₃⟩ := exists_append (show 4 ≤ bs.length by omega)
  rw [List.length_append] at h
  obtain ⟨b₄, bs, rfl, h₄⟩ := exists_append (show 4 ≤ bs.length by omega)
  apply Exists.intro
  refine ⟨b₁ ++ (b₂ ++ (b₃ ++ b₄)), bs, ?_, ?_, ?_⟩
  · simp only [List.append_assoc]
  · simp only [List.length_append]
    omega
  · unfold readFirstFields readModtime readModNsec readMode readId
    simp only [htime, hnsec, hmode, huid, hgid, h30, if_false, Bool.false_eq_true, pure_bind,
      bind_assoc]
    apply hsize.bind
    apply (reads_readInt_bytes h₁).bind
    apply (reads_readInt_bytes h₂).bind
    apply (reads_readInt_bytes h₃).bind
    apply (reads_readInt_bytes h₄).map

/-- After the first fields of a directory nothing is read. -/
theorem eq_nil_of_readLastFields
    (host : H) {name : Option Name × Name} {first : FirstFields} (hdir : fi.isDir = true)
    (hmode : d.mode = fi.mode) {bs : List UInt8}
    (h : Proc.Reads answer
      (readLastFields protocol checksumLen prev name first : Session Reply FileInfo) bs d) :
  bs = []
  := by
  have hfirst : first.mode = d.mode := by
    obtain ⟨w, w', h⟩ := h.returns host
    apply (of_readLastFields h).2.2.symm
  have htype : FileType.fromMode first.mode = .dir := by
    rw [hfirst, hmode]
    exact of_decide_eq_true hdir
  have hrdev : expectsRdev protocol first.mode = false := by
    simp [expectsRdev, htype]
  unfold readLastFields readRdev readTarget readChecksum at h
  simp only [hrdev, htype, reduceCtorEq, Bool.false_eq_true, and_false, if_false, pure_bind] at h
  apply (Proc.reads_pure _).eq_nil host h

/-- Without any flags a zero is read as an empty name. -/
theorem reads_emptyName :
  Proc.Reads answer (readName xmitExtendedFlags prev : Session Reply Name) [0] []
  := by
  have hsame : hasFlag xmitExtendedFlags xmitSameName = decide (0 < 0) := by decide
  have hlong : hasFlag xmitExtendedFlags xmitLongName = decide (255 < 0) := by decide
  have hlen : ([] : List UInt8).length = restLenRead 0 := rfl
  have hname : fromUtf8Lossy ((prevName prev).take 0 ++ []) = [] := by
    simp [fromUtf8Lossy]
  apply reads_readName hsame hlong (by decide) (Nat.zero_le _) hlen (by decide) hname

/-- The bytes that are sent for a directory that has nothing in common with the entry before
it. -/
theorem writes_sharesNothing
    (answer : H → (x : X) → Option (Reply x × H)) (hp : protocol < 28) (hdir : fi.isDir = true)
    (hshares : sharesNothing preserve prev fi = true) :
  ∃ fs, fs.length = 16 ∧ Proc.Writes answer
    (sendFileEntry protocol checksumLen preserve false prev fi : Session Reply Unit)
    ([4, 0] ++ ((UInt8.ofNat fi.path.length :: fi.path) ++ (encodeVarlong fi.size 3 ++ fs))) ()
  := by
  have hflags := sentFlags_of_sharesNothing hp hdir hshares
  unfold sharesNothing at hshares
  simp only [decide_eq_true_eq] at hshares
  obtain ⟨hsame, hshort, -, -, huid, hgid, -⟩ := hshares
  have hb : isCharBoundary fi.path (sameLen fi.path (prevName prev)) = true := by
    rw [hsame]
    rfl
  have hname : encodeName prev fi = UInt8.ofNat fi.path.length :: fi.path := by
    simp [encodeName, encodeSame, encodeRestLen, hsame, not_lt.mpr hshort]
  obtain ⟨fs, hfs, hfields⟩ : ∃ fs, fs.length = 16 ∧ Proc.Writes answer
      (writeFields protocol checksumLen preserve xmitExtendedFlags fi : Session Reply Unit)
      (encodeVarlong fi.size 3 ++ fs) () := writes_fields_old hp hdir huid hgid
  have hwflags : Proc.Writes answer
      (writeXflags false xmitExtendedFlags : Session Reply Unit) [4, 0] () :=
    writes_writeAll (leBytes 2 xmitExtendedFlags)
  have hwname : Proc.Writes answer
      (writeName (sentFlags protocol preserve false prev fi) (sameLen fi.path (prevName prev))
        (fi.path.drop (sameLen fi.path (prevName prev))) : Session Reply Unit)
      (encodeName prev fi) () := writes_encodeName prev
  rw [hname, hflags] at hwname
  use fs, hfs
  rw [sendFileEntry_eq hb, hflags]
  apply hwflags.bind
  apply hwname.bind
  rw [if_neg (by omega)]
  apply hfields

/-- Before protocol 28 the mark of a second byte is all that is read of the flags. -/
theorem reads_readXflags_old
    (hp : protocol < 28) :
  Proc.Reads answer (readXflags protocol false : Session Reply ℕ) [4] xmitExtendedFlags
  := by
  unfold readXflags
  rw [if_neg Bool.false_ne_true]
  apply reads_readByte_bind
  rw [if_neg (by decide), readXflags.readHighFlags, if_neg (by omega), pure_bind,
    if_neg (by decide)]
  apply Proc.reads_pure

/-- Before protocol 28 a directory that has nothing in common with the entry before it is not
received as it was sent. -/
theorem not_carries_sharesNothing
    (host : H) (hp : protocol < 28) {sent : List FileInfo} (hdir : fi.isDir = true)
    (hshares : sharesNothing preserve sent.getLast? fi = true)
    (hagrees : Agrees preserve fi d) :
  ¬ Proc.Carries answer
    (sendFileEntry protocol checksumLen preserve false sent.getLast? fi : Session Reply Unit) ()
    (recvNext protocol checksumLen preserve.uid preserve.gid 0 received)
    (.inl (received ++ [d]))
  := by
  rintro ⟨bs, hsend, hrecv⟩
  obtain ⟨fs, hfs, hsend'⟩ := writes_sharesNothing answer hp hdir hshares
  rw [hsend.unique host hsend'] at hrecv
  -- the first byte is taken for the flags
  have hentry := (reads_readXflags_old hp).of_bind hrecv
  rw [if_neg (show xmitExtendedFlags ≠ 0 by decide)] at hentry
  have hinner := Proc.Reads.of_map (injective_snoc received) hentry
  -- the second byte is taken for the length of the name
  unfold recvFileEntryInner at hinner
  have hafter := reads_emptyName.of_bind hinner
  rw [if_neg (by omega)] at hafter
  have hpath : fi.path = [] := by
    obtain ⟨w, w', h⟩ := hafter.returns host
    rw [← hagrees.path, path_eq_of_name (path_of_readFields h)]
    rfl
  rw [hpath, readFields_eq] at hafter
  -- and the length of the name for a part of the size
  have hlen : (leBytes 8 fi.size).length = 8 := length_leBytes 8 fi.size
  obtain ⟨ch, low, hmark, hlow, -⟩ := markedBytes_spec (leBytes 8 fi.size) 3 (by omega)
    (by omega) (by omega)
  rw [hlen] at hmark
  have henc : encodeVarlong fi.size 3 = ch :: low := hmark
  rw [henc] at hafter
  match low with
  | [] =>
    rw [List.length_nil] at hlow
    omega
  | [_] =>
    rw [List.length_singleton] at hlow
    omega
  | l₀ :: l₁ :: low =>
    obtain ⟨first, xs, ys, hsplit, hxs, hfirst⟩ : ∃ first xs ys, (l₁ :: low) ++ fs = xs ++ ys ∧
        xs.length = 16 ∧ Proc.Reads answer
        (readFirstFields protocol xmitExtendedFlags received.getLast? : Session Reply FirstFields)
        ([0, ch, l₀] ++ xs) first := by
      apply reads_firstFields_old hp
      rw [List.length_append, hfs]
      omega
    have hbytes : [0, ch, l₀] ++ xs ++ ys = 0 :: ch :: l₀ :: (l₁ :: low ++ fs) := by
      rw [hsplit]
      rfl
    change Proc.Reads answer _ (0 :: ch :: l₀ :: (l₁ :: low ++ fs)) d at hafter
    rw [← hbytes] at hafter
    have hys := eq_nil_of_readLastFields host hdir hagrees.mode (hfirst.of_bind hafter)
    have hlength := congrArg List.length hsplit
    rw [hys, List.append_nil, List.length_append, List.length_cons, hxs, hfs] at hlength
    omega

end Misread

/-! ### The mark that ends the list -/

section EndOfList

variable {protocol checksumLen : ℕ} {preserve : Preserve} {ioError : ℤ}
  {received : List FileInfo}

theorem length_encodeVarint_le
    (x : ℤ) :
  (encodeVarint x).length ≤ 5
  := by
  have hlen : (leBytes 4 x).length = 4 := length_leBytes 4 x
  obtain ⟨ch, rest, hmark, -, hrest, -⟩ := markedBytes_spec (leBytes 4 x) 1 (by omega) (by omega)
    (by omega)
  rw [hlen] at hmark hrest
  have henc : encodeVarint x = ch :: rest := hmark
  rw [henc, List.length_cons]
  omega

/-- Before protocol 28 the mark that ends a list with an error code is taken for an entry whose
name goes on after the end of the list. -/
theorem fails_recvNext_ioError
    (hp : protocol < 28) {w : Endpoint H UInt8}
    (hw : w.input = [4, 16] ++ (encodeVarint ioError ++ leBytes 4 ioError)) :
  ∃ w', Proc.Fails answer true
    (recvNext protocol checksumLen preserve.uid preserve.gid 0 received :
      Session Reply (List FileInfo ⊕ List FileInfo)) w .unexpectedEof w'
  := by
  have hread : Proc.Reads answer (readXflags protocol false : Session Reply ℕ) [4]
      xmitExtendedFlags := reads_readXflags_old hp
  have hsame : Proc.Reads answer (readSameLen xmitExtendedFlags : Session Reply ℕ) [] 0 :=
    Proc.reads_pure 0
  have hrest : Proc.Reads answer (readRestLen xmitExtendedFlags : Session Reply ℕ) [16] 16 :=
    (reads_readByte 16).map _
  have hslice : slice (prevName received.getLast?) 0 0 = .ok [] := rfl
  have hreserve : reserve 1 16 = .ok () := rfl
  have hvarint := length_encodeVarint_le ioError
  have hint : (leBytes 4 ioError).length = 4 := length_leBytes 4 ioError
  -- after the flags and the length of the name fewer than 16 bytes are left
  obtain ⟨w', hfails⟩ : ∃ w', Proc.Fails answer true (readBytes 16 : Session Reply (List UInt8))
      { w with input := encodeVarint ioError ++ leBytes 4 ioError } .unexpectedEof w' := by
    apply Proc.fails_readExact
    dsimp only
    rw [List.length_append]
    omega
  use w'
  unfold recvNext
  apply (hread true w _ hw).bind_fails
  rw [if_neg (show xmitExtendedFlags ≠ 0 by decide)]
  apply Proc.Fails.bind
  apply Proc.Fails.bind
  apply (hsame true _ _ rfl).bind_fails
  apply (hrest true _ _ rfl).bind_fails
  rw [lift_bind hslice]
  apply Proc.Fails.bind
  unfold readString
  rw [lift_bind hreserve]
  apply hfails

/-- Before protocol 28 a list with an error code is not received. -/
theorem not_carries_ioError
    (host : H) (hp : protocol < 28) (hio : ioError ≠ 0) {flist : FileList} {order : List FileInfo}
    (horder : sendOrder flist = .ok order)
    (hreceived : Received answer protocol checksumLen preserve 0 order received) (d : FileList) :
  ¬ Proc.Carries answer
    (sendFileListEx flist protocol checksumLen ioError preserve 0 : Session Reply Unit) ()
    (recvFileListEx protocol checksumLen preserve.uid preserve.gid 0) d
  := by
  rintro ⟨bs, hsend, hrecv⟩
  obtain ⟨es, hentries, hiff⟩ := hreceived.returns_iff
  have hend : Proc.Writes answer (do
      sendEndOfList protocol (hasFlag 0 cfVarintFlistFlags) ioError
      sendTrailer protocol preserve (hasFlag 0 cfIncRecurse) ioError : Session Reply Unit)
      ([4, 16] ++ (encodeVarint ioError ++ leBytes 4 ioError)) () := by
    unfold sendEndOfList sendTrailer
    rw [if_neg (by decide), if_pos (.inr hio), if_neg (by omega), if_pos (by omega),
      ← List.append_assoc]
    have hmark : Proc.Writes answer (do
        writeShortint (xmitExtendedFlags ||| xmitIoErrorEndlist)
        writeVarint ioError : Session Reply Unit) ([4, 16] ++ encodeVarint ioError) () :=
      (writes_writeAll (leBytes 2 _)).bind (writes_writeVarint ioError)
    apply hmark.bind (writes_writeInt ioError)
  have hlist : Proc.Writes answer
      (sendFileListEx flist protocol checksumLen ioError preserve 0 : Session Reply Unit)
      (es ++ ([4, 16] ++ (encodeVarint ioError ++ leBytes 4 ioError))) () := by
    unfold sendFileListEx
    dsimp only
    rw [lift_bind horder]
    apply hentries.bind hend
  rw [hsend.unique host hlist] at hrecv
  let w : Endpoint H UInt8 :=
    { host := host, input := es ++ ([4, 16] ++ (encodeVarint ioError ++ leBytes 4 ioError)),
      buffer := [], sent := [] }
  obtain ⟨files, w', hloop, -⟩ := (hrecv true w [] (List.append_nil _).symm).bind_inv
  let v : Endpoint H UInt8 :=
    { w with input := [4, 16] ++ (encodeVarint ioError ++ leBytes 4 ioError) }
  obtain ⟨w'', hfails⟩ : ∃ w', Proc.Fails answer true
      (recvNext protocol checksumLen preserve.uid preserve.gid 0 received :
        Session Reply (List FileInfo ⊕ List FileInfo)) v .unexpectedEof w' :=
    fails_recvNext_ioError hp rfl
  apply hfails.not_returns_loop ((hiff true w w' _ files rfl).mp hloop)

end EndOfList

/-! ### Lists -/

/-- The receiver makes of each entry of the list an entry that agrees with it, of exactly the
bytes that are sent for it, and these entries are what it makes of all the bytes that are sent
for the list. -/
def OldListReceived (answer : H → (x : X) → Option (Reply x × H)) (protocol checksumLen : ℕ)
    (ioError : ℤ) (preserve : Preserve) (flist : FileList) : Prop :=
  ∃ received d, Received answer protocol checksumLen preserve 0 flist.files received ∧
    List.Forall₂ (AgreesWithIds preserve) flist.files received ∧
    d.files.Perm received ∧
    Proc.Carries answer
      (sendFileListEx flist protocol checksumLen ioError preserve 0 : Session Reply Unit) ()
      (recvFileListEx protocol checksumLen preserve.uid preserve.gid 0) d

/-- The receiver keeps the entries that do not refer to others. -/
theorem perm_sortReceived
    {received : List FileInfo} (hlink : ∀ d ∈ received, d.hardLinkFirstNdx = -1) :
  (sortReceived received).files.Perm received
  := by
  have hremap : ∀ entry ∈ sortIndexed received,
      remapHardLink received 0 entry.1 = entry.1 := by
    intro entry hentry
    have hmem : entry.1 ∈ received :=
      List.fst_mem_of_mem_zipIdx (List.mem_mergeSort.mp hentry)
    rw [remapHardLink, if_neg]
    rw [hlink entry.1 hmem]
    rintro ⟨h, -⟩
    cases h
  unfold sortReceived
  dsimp only
  rw [List.map_congr_left hremap]
  have hperm := (List.mergeSort_perm received.zipIdx fun a b => fileLe a.1 b.1).map Prod.fst
  rw [List.zipIdx_map_fst] at hperm
  apply hperm

section Lists

variable {protocol checksumLen : ℕ} {preserve : Preserve} {fi d : FileInfo}

theorem AgreesFully.withIds
    (h : AgreesFully protocol checksumLen preserve fi d) :
  AgreesWithIds preserve fi d
  where
  toAgrees := h.toAgrees
  uid := h.uid
  gid := h.gid

/-- In an old protocol a list is received as it was sent exactly when its entries may be sent,
and, before protocol 28, no error code ends the list and no directory has nothing in common
with the entry before it. -/
theorem old_list_received_iff
    (answer : H → (x : X) → Option (Reply x × H)) (host : H) (protocol checksumLen : ℕ)
    (ioError : ℤ) (preserve : Preserve) (flist : FileList) (hprotocol : protocol < 30)
    (hio : IsI32 ioError) (hlen : checksumLen < 9223372036854775808)
    (hentries : ∀ fi ∈ flist.files, OldEntry fi) :
  OldListReceived answer protocol checksumLen ioError preserve (flistSort flist) ↔
    (∀ pre fi post, (flistSort flist).files = pre ++ fi :: post →
      EntryOk protocol preserve pre fi) ∧
    (protocol < 28 → ioError = 0 ∧ ∀ pre fi post, (flistSort flist).files = pre ++ fi :: post →
      ¬ (fi.isDir = true ∧ sharesNothing preserve pre.getLast? fi = true))
  := by
  have htyped : ∀ fi ∈ (flistSort flist).files, fi.Typed := by
    intro fi hfi
    apply (hentries fi (List.mem_mergeSort.mp hfi)).toTyped
  have hbytes : hasFlag 0 cfVarintFlistFlags = false := by decide
  constructor
  · rintro ⟨received, d, hreceived, hrel, -, hcarries⟩
    have hagrees : List.Forall₂ (Agrees preserve) (flistSort flist).files received :=
      hrel.imp fun _ _ h => h.toAgrees
    have hold : protocol < 28 → ioError = 0 ∧
        ∀ pre fi post, (flistSort flist).files = pre ++ fi :: post →
          ¬ (fi.isDir = true ∧ sharesNothing preserve pre.getLast? fi = true) := by
      intro hp
      constructor
      · by_contra hne
        apply not_carries_ioError host hp hne (sendOrder_flistSort flist) hreceived d hcarries
      · rintro pre fi post hsplit ⟨hdir, hshares⟩
        rw [hsplit] at hreceived hagrees
        obtain ⟨pre', d', post', rfl, hpre, hentry⟩ := hreceived.split
        obtain ⟨-, hfi⟩ := forall₂_split hagrees hpre.length_eq
        rw [hbytes] at hentry
        apply not_carries_sharesNothing host hp hdir hshares hfi hentry
    refine ⟨?_, hold⟩
    intro pre fi post hsplit
    apply entryOk_of_received host htyped _ hreceived hagrees hsplit
    intro pre fi post hsplit _ hp
    apply not_extended_old hp ((hold hp).2 pre fi post hsplit)
  · rintro ⟨hok, hold⟩
    have hreceives : ∃ received,
        Received answer protocol checksumLen preserve 0 (flistSort flist).files received ∧
          List.Forall₂ (AgreesFully protocol checksumLen preserve) (flistSort flist).files
            received := by
      apply received_of_ok (fun p q h => h.toAgrees)
      · intro pre pre' fi post hsplit hrel
        apply agreesFully_receivedEntry (hrel.imp fun _ _ h => h.agreesOwned)
          (hok pre fi post hsplit)
        simp [refers]
        omega
      · apply htyped
      · apply hok
      · intro pre fi post hsplit _ hp
        apply not_extended_old hp ((hold hp).2 pre fi post hsplit)
      · apply hlen
    obtain ⟨received, hreceived, hrel⟩ := hreceives
    refine ⟨received, sortReceived received, hreceived, hrel.imp fun _ _ h => h.withIds,
      perm_sortReceived (link_of_agreesFully hrel), ?_⟩
    apply carries_list (sendOrder_flistSort flist) hreceived hio
    by_cases hp : protocol < 28
    · apply Or.inr (.inr (hold hp).1)
    · apply Or.inr (.inl (not_lt.mp hp))

theorem oldEntry_sharedNames
    {fi : FileInfo} (h : fi ∈ sharedNames) :
  OldEntry fi
  where
  toTyped := (sendable_sharedNames fi h).toTyped
  kind := (sendable_sharedNames fi h).kind
  ascii := (sendable_sharedNames fi h).ascii
  time := (show ∀ fi ∈ sharedNames, IsI32 fi.modtime by decide) fi h

theorem old_list_received_sharedNames :
  OldListReceived noHost 29 16 0 { times := true, uid := true } (flistSort { files := sharedNames })
  := by
  apply (old_list_received_iff noHost () 29 16 0 { times := true, uid := true } _ (by decide)
    (by decide) (by decide) fun _ => oldEntry_sharedNames).mpr
  constructor
  · intro pre fi post hfiles
    have hmem : fi ∈ sharedNames := by
      have hmem : fi ∈ (flistSort { files := sharedNames }).files := by
        rw [hfiles]
        simp
      exact List.mem_mergeSort.mp hmem
    have hrest := rest_lt_of_paths paths_sharedNames pre fi post hfiles
    apply (sendable_sharedNames fi hmem).entryOk hrest (targets_sharedNames fi hmem)
    intro _ _
    exact (oldEntry_sharedNames hmem).time
  · intro h
    omega

/-- At protocol 27 even the empty list is not received when it ends with an error code. -/
theorem old_list_not_received :
  ¬ ∃ d : FileList, Proc.Carries noHost
    (sendFileListEx (flistSort {}) 27 0 1 { devices := true } 0 : Session (fun _ => Unit) Unit) ()
    (recvFileListEx 27 0 false false 0) d
  := by
  rintro ⟨d, hcarries⟩
  have hempty : (flistSort {}).files = [] := List.mergeSort_nil
  have hreceived : Received noHost 27 0 { devices := true } 0 (flistSort {}).files [] := by
    rw [hempty]
    apply Received.nil
  exact not_carries_ioError () (by decide) (by decide) (sendOrder_flistSort {}) hreceived d hcarries

end Lists
