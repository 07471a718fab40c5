import RsyncRs.Delta.Sums
import RsyncRs.Fs.Path
import RsyncRs.Io.Varint

/-!
# Entries of a file list

An entry is coded relative to the entry before it. Flags say which fields are the same and
are left out.
-/

variable {X : Type} {Reply : X → Type}

/-! ### Flags -/

/-- The entry is the root of the transfer. -/
def xmitTopDir : ℕ := 1 <<< 0

/-- The mode is that of the entry before. -/
def xmitSameMode : ℕ := 1 <<< 1

/-- The flags have a second byte. -/
def xmitExtendedFlags : ℕ := 1 <<< 2

/-- The owner is that of the entry before. -/
def xmitSameUid : ℕ := 1 <<< 3

/-- The group is that of the entry before. -/
def xmitSameGid : ℕ := 1 <<< 4

/-- The name starts as the name before. -/
def xmitSameName : ℕ := 1 <<< 5

/-- The rest of the name has more than 255 bytes. -/
def xmitLongName : ℕ := 1 <<< 6

/-- The modification time is that of the entry before. -/
def xmitSameTime : ℕ := 1 <<< 7

/-- The file belongs to a group of hard links. -/
def xmitHlinked : ℕ := 1 <<< 9

/-- The name of the owner follows its number. -/
def xmitUserNameFollows : ℕ := 1 <<< 10

/-- The name of the group follows its number. -/
def xmitGroupNameFollows : ℕ := 1 <<< 11

/-- The file is the first of its group of hard links. -/
def xmitHlinkFirst : ℕ := 1 <<< 12

/-- The list ends here, with an error code. -/
def xmitIoErrorEndlist : ℕ := 1 <<< 12

/-- The modification time has a part in nanoseconds. -/
def xmitModNsec : ℕ := 1 <<< 13

/-- Internal flag: the entry is the root of the transfer. -/
def flagTopDir : ℕ := 1 <<< 0

/-- Internal flag: the file belongs to a group of hard links. -/
def flagHlinked : ℕ := 1 <<< 5

/-- Internal flag: the file is the first of its group of hard links. -/
def flagHlinkFirst : ℕ := 1 <<< 6

/-- The flag is set among the flags `xflags`. -/
def hasFlag (xflags flag : ℕ) : Bool :=
  xflags &&& flag ≠ 0

/-- The flag when the condition holds, otherwise none. -/
def flagIf (c : Bool) (flag : ℕ) : ℕ :=
  if c then flag else 0

/-- Which fields are sent. -/
structure Preserve where
  uid : Bool := false
  gid : Bool := false
  times : Bool := false
  devices : Bool := false
deriving DecidableEq, Repr

/-! ### Sending an entry -/

/-- The name of the entry before, empty for the first entry. -/
def prevName (prev : Option FileInfo) : Name :=
  match prev with
  | some p => p.path
  | none => []

/-- How many bytes the names share at their start, at most 255. -/
def sameLen (fname prevName : Name) : ℕ :=
  (((fname.zip prevName).take 255).takeWhile fun p => p.1 = p.2).length

/-- A string may be cut at the index `i`. -/
def isCharBoundary (s : Name) (i : ℕ) : Bool :=
  if i = 0 then true
  else if s.length ≤ i then i = s.length
  else s.getD i 0 < 0x80 ∨ 0xC0 ≤ s.getD i 0

/-- The string from the index `i` on. -/
def strFrom (s : Name) (i : ℕ) : Except Error Name :=
  if isCharBoundary s i then pure (s.drop i)
  else throw (.panic "byte index is not a char boundary")

/-- The flags of the fields that are the same as in the entry before. -/
def sameFlags (preserve : Preserve) (prev : Option FileInfo) (fi : FileInfo) : ℕ :=
  match prev with
  | some p =>
    flagIf (fi.mode = p.mode) xmitSameMode |||
      flagIf (¬ preserve.times ∨ fi.modtime = p.modtime) xmitSameTime |||
      flagIf (¬ preserve.uid ∨ fi.uid = p.uid) xmitSameUid |||
      flagIf (¬ preserve.gid ∨ fi.gid = p.gid) xmitSameGid
  | none =>
    flagIf (¬ preserve.times) xmitSameTime ||| flagIf (¬ preserve.uid) xmitSameUid |||
      flagIf (¬ preserve.gid) xmitSameGid

/-- The file belongs to a group of hard links. -/
def isHlinkMember (fi : FileInfo) : Bool :=
  hasFlag fi.flags flagHlinked

/-- The file is the first of its group of hard links. -/
def isHlinkLeader (fi : FileInfo) : Bool :=
  hasFlag fi.flags flagHlinkFirst

/-- The file is another one of its group of hard links. -/
def isHlinkFollower (fi : FileInfo) : Bool :=
  isHlinkMember fi && !isHlinkLeader fi && 0 ≤ fi.hardLinkFirstNdx

/-- The entry is the root of the transfer. -/
def isTopDirEntry (fi : FileInfo) : Bool :=
  hasFlag fi.flags flagTopDir && fi.isDir

/-- The flags of an entry whose name shares `same` bytes and goes on with `restLen` bytes. -/
def entryFlags (protocol : ℕ) (preserve : Preserve) (prev : Option FileInfo) (fi : FileInfo)
    (same restLen : ℕ) : ℕ :=
  flagIf (0 < same) xmitSameName ||| flagIf (255 < restLen) xmitLongName |||
    sameFlags preserve prev fi |||
    flagIf (fi.modNsec ≠ 0 ∧ 31 ≤ protocol) xmitModNsec |||
    flagIf (isHlinkMember fi ∧ 28 ≤ protocol) xmitHlinked |||
    flagIf (isHlinkMember fi ∧ 28 ≤ protocol ∧ isHlinkLeader fi ∧ 30 ≤ protocol) xmitHlinkFirst |||
    flagIf (isTopDirEntry fi) xmitTopDir

/-- The flags as they are sent, which are never zero. -/
def wireFlags (varintFlags isDir : Bool) (xflags : ℕ) : ℕ :=
  if varintFlags then
    if xflags = 0 then xmitExtendedFlags else xflags
  else
    let xflags := if xflags = 0 ∧ ¬ isDir then xflags ||| xmitTopDir else xflags
    if xflags &&& 0xFF00 ≠ 0 ∨ xflags = 0 then xflags ||| xmitExtendedFlags else xflags

/-- Write the flags of an entry. They take a second byte when it is announced. -/
def writeXflags (varintFlags : Bool) (xflags : ℕ) : Session Reply Unit :=
  if varintFlags then
    writeVarint (wrapI32 xflags)
  else if hasFlag xflags xmitExtendedFlags then
    writeShortint xflags
  else
    writeByte (UInt8.ofNat (xflags &&& 0xFF))

/-- Write the length and the bytes of the rest of a name. -/
def writeRest (xflags : ℕ) (rest : Name) : Session Reply Unit := do
  if hasFlag xflags xmitLongName then
    writeVarint (wrapI32 rest.length)
  else
    writeByte (UInt8.ofNat rest.length)
  writeAll rest

/-- Write a name that shares `same` bytes with the name before. -/
def writeName (xflags same : ℕ) (rest : Name) : Session Reply Unit := do
  if hasFlag xflags xmitSameName then
    writeByte (UInt8.ofNat same)
  writeRest xflags rest

/-- Write the modification time, unless it is the same. -/
def writeModtime (protocol xflags : ℕ) (fi : FileInfo) : Session Reply Unit :=
  if hasFlag xflags xmitSameTime then pure ()
  else if 30 ≤ protocol then writeVarlong fi.modtime 4
  else writeInt (wrapI32 fi.modtime)

/-- Write the part of the modification time in nanoseconds. -/
def writeModNsec (xflags : ℕ) (fi : FileInfo) : Session Reply Unit :=
  if hasFlag xflags xmitModNsec then writeVarint (wrapI32 fi.modNsec) else pure ()

/-- Write the mode, unless it is the same. -/
def writeMode (xflags : ℕ) (fi : FileInfo) : Session Reply Unit :=
  if hasFlag xflags xmitSameMode then pure () else writeInt (wrapI32 fi.mode)

/-- Write the number of an owner or of a group, unless it is left out. -/
def writeId (protocol : ℕ) (sent : Bool) (id : ℕ) : Session Reply Unit :=
  if sent then
    if 30 ≤ protocol then writeVarint (wrapI32 id) else writeInt (wrapI32 id)
  else
    pure ()

/-- The numbers of a device are sent. -/
def sendsRdev (protocol : ℕ) (preserve : Preserve) (fi : FileInfo) : Bool :=
  preserve.devices && (fi.fileType = .device || (fi.fileType = .special && protocol < 31))

/-- Write the numbers of a device. -/
def writeRdev (protocol : ℕ) (preserve : Preserve) (fi : FileInfo) : Session Reply Unit :=
  if sendsRdev protocol preserve fi then do
    writeVarint (wrapI32 fi.rdevMajor)
    if 30 ≤ protocol then writeVarint (wrapI32 fi.rdevMinor)
    else writeInt (wrapI32 fi.rdevMinor)
  else
    pure ()

/-- The target of a symbolic link. -/
def targetOf (fi : FileInfo) : Name :=
  fi.linkTarget.getD []

/-- Write the target of a symbolic link. -/
def writeTarget (fi : FileInfo) : Session Reply Unit :=
  if fi.isSymlink then do
    writeVarint (wrapI32 (targetOf fi).length)
    writeAll (targetOf fi)
  else
    pure ()

/-- A checksum padded or cut to a length. -/
def paddedChecksum (checksumLen : ℕ) (checksum : Option (List UInt8)) : List UInt8 :=
  match checksum with
  | some sum => sum.take checksumLen ++ List.replicate (checksumLen - sum.length) 0
  | none => List.replicate checksumLen 0

/-- Write the checksum of a regular file. -/
def writeChecksum (checksumLen : ℕ) (fi : FileInfo) : Session Reply Unit :=
  if 0 < checksumLen ∧ fi.isRegular then
    writeAll (paddedChecksum checksumLen fi.checksum)
  else
    pure ()

/-- Write what an entry has after its name, unless it refers to another entry. -/
def writeFields (protocol checksumLen : ℕ) (preserve : Preserve) (xflags : ℕ) (fi : FileInfo) :
    Session Reply Unit := do
  writeVarlong fi.size 3
  writeModtime protocol xflags fi
  writeModNsec xflags fi
  writeMode xflags fi
  writeId protocol (preserve.uid && !hasFlag xflags xmitSameUid) fi.uid
  writeId protocol (preserve.gid && !hasFlag xflags xmitSameGid) fi.gid
  writeRdev protocol preserve fi
  writeTarget fi
  writeChecksum checksumLen fi

/-- Send an entry. -/
def sendFileEntry (protocol checksumLen : ℕ) (preserve : Preserve) (varintFlags : Bool)
    (prev : Option FileInfo) (fi : FileInfo) : Session Reply Unit := do
  let same := sameLen fi.path (prevName prev)
  let rest ← strFrom fi.path same
  let xflags := wireFlags varintFlags fi.isDir
    (entryFlags protocol preserve prev fi same rest.length)
  writeXflags varintFlags xflags
  writeName xflags same rest
  if isHlinkFollower fi ∧ 30 ≤ protocol then
    writeVarint fi.hardLinkFirstNdx
  else
    writeFields protocol checksumLen preserve xflags fi

/-! ### Receiving an entry -/

/-- Read the flags of an entry, zero at the end of the list. -/
def readXflags (protocol : ℕ) (varintFlags : Bool) : Session Reply ℕ :=
  if varintFlags then do
    let flags ← readVarint
    pure (asU32 flags)
  else do
    let b ← readByte
    if b = 0 then
      pure 0
    else
      let flags ← readHighFlags protocol b.toNat
      if flags = xmitExtendedFlags ||| xmitIoErrorEndlist then
        let _ ← readVarint
        pure 0
      else
        pure flags
where
  /-- Read the second byte of the flags when there is one. -/
  readHighFlags (protocol flags : ℕ) : Session Reply ℕ :=
    if 28 ≤ protocol ∧ hasFlag flags xmitExtendedFlags then do
      let b ← readByte
      pure (flags ||| (b.toNat <<< 8))
    else
      pure flags

/-- Read how many bytes the name shares with the name before. -/
def readSameLen (xflags : ℕ) : Session Reply ℕ :=
  if hasFlag xflags xmitSameName then do
    let b ← readByte
    pure b.toNat
  else
    pure 0

/-- Read the length of the rest of a name. -/
def readRestLen (xflags : ℕ) : Session Reply ℕ :=
  if hasFlag xflags xmitLongName then do
    let len ← readVarint
    pure (asUsize len)
  else do
    let b ← readByte
    pure b.toNat

/-- Read a string of the given length. -/
def readString (len : ℕ) : Session Reply (List UInt8) := do
  reserve 1 len
  readBytes len

/-- Read a name. -/
def readName (xflags : ℕ) (prev : Option FileInfo) : Session Reply Name := do
  let same ← readSameLen xflags
  let restLen ← readRestLen xflags
  let shared ← slice (prevName prev) 0 same
  let rest ← readString restLen
  pure (fromUtf8Lossy (shared ++ rest))

/-- The directory and the base name of a path. -/
def splitName (fullName : Name) : Option Name × Name :=
  if sep ∈ fullName then (some (FsPath.beforeLastPart fullName), FsPath.lastPart fullName)
  else (none, fullName)

/-- Read the modification time. -/
def readModtime (protocol xflags : ℕ) (prev : Option FileInfo) : Session Reply ℤ :=
  if hasFlag xflags xmitSameTime then
    pure (match prev with
      | some p => p.modtime
      | none => 0)
  else if 30 ≤ protocol then readVarlong 4
  else readInt

/-- Read the part of the modification time in nanoseconds. -/
def readModNsec (xflags : ℕ) : Session Reply ℕ :=
  if hasFlag xflags xmitModNsec then do
    let nsec ← readVarint
    pure (asU32 nsec)
  else
    pure 0

/-- Read the mode. -/
def readMode (xflags : ℕ) (prev : Option FileInfo) : Session Reply ℕ :=
  if hasFlag xflags xmitSameMode then
    pure (match prev with
      | some p => p.mode
      | none => 0o100644)
  else do
    let mode ← readInt
    pure (asU32 mode)

/-- Read the name of an owner or of a group and drop it. -/
def skipIdName : Session Reply Unit := do
  let len ← readByte
  let _ ← readBytes len.toNat
  pure ()

/-- Read the number of an owner or of a group. -/
def readId (protocol : ℕ) (same : Bool) (nameFollows : Bool) (prevId : Option ℕ) :
    Session Reply ℕ :=
  if same then
    pure (prevId.getD 0)
  else if 30 ≤ protocol then do
    let id ← readVarint
    if nameFollows then
      skipIdName
      pure (asU32 id)
    else
      pure (asU32 id)
  else do
    let id ← readInt
    pure (asU32 id)

/-- The numbers of a device are expected. -/
def expectsRdev (protocol mode : ℕ) : Bool :=
  FileType.fromMode mode = .device || (FileType.fromMode mode = .special && protocol < 31)

/-- Read the numbers of a device. -/
def readRdev (protocol mode : ℕ) (prev : Option FileInfo) : Session Reply (ℕ × ℕ) :=
  if expectsRdev protocol mode then do
    let major ← readVarint
    let minor ← if 30 ≤ protocol then readVarint else readInt
    pure (asU32 major, asU32 minor)
  else
    pure (match prev with
      | some p => (p.rdevMajor, p.rdevMinor)
      | none => (0, 0))

/-- Read the target of a symbolic link. -/
def readTarget (mode : ℕ) : Session Reply (Option Name) :=
  if FileType.fromMode mode = .symlink then do
    let len ← readVarint
    let target ← readString (asUsize len)
    pure (some (fromUtf8Lossy target))
  else
    pure none

/-- Read the checksum of a regular file. -/
def readChecksum (checksumLen mode : ℕ) : Session Reply (Option (List UInt8)) :=
  if 0 < checksumLen ∧ FileType.fromMode mode = .regular then do
    let sum ← readString checksumLen
    pure (some sum)
  else
    pure none

/-- Read the rest of an entry that refers to the first one of its group of hard links. -/
def readFollower (name : Option Name × Name) (flistSoFar : List FileInfo) (ndxStart : ℤ) :
    Session Reply FileInfo := do
  let firstHlinkNdx ← readVarint
  let relIdx := wrapI32 (firstHlinkNdx - ndxStart)
  match if 0 ≤ relIdx then flistSoFar[relIdx.toNat]? else none with
  | some first =>
    pure { first with name := name.2, dirname := name.1, flags := flagHlinked,
                      hardLinkFirstNdx := firstHlinkNdx, dev := 0, ino := 0, checksum := none }
  | none =>
    throw (.other (s!"hardlink reference {firstHlinkNdx} out of range " ++
      s!"(ndx_start={ndxStart}, entries_so_far={flistSoFar.length})"))

/-- Read what an entry has after its name. -/
def readFields (protocol checksumLen xflags : ℕ) (prev : Option FileInfo)
    (name : Option Name × Name) : Session Reply FileInfo := do
  let size ← readVarlong 3
  let modtime ← readModtime protocol xflags prev
  let modNsec ← readModNsec xflags
  let mode ← readMode xflags prev
  let uid ← readId protocol (hasFlag xflags xmitSameUid) (hasFlag xflags xmitUserNameFollows)
    (prev.map FileInfo.uid)
  let gid ← readId protocol (hasFlag xflags xmitSameGid) (hasFlag xflags xmitGroupNameFollows)
    (prev.map FileInfo.gid)
  let (rdevMajor, rdevMinor) ← readRdev protocol mode prev
  let linkTarget ← readTarget mode
  let checksum ← readChecksum checksumLen mode
  pure { name := name.2, dirname := name.1, modtime, modNsec, size, mode, flags := 0, uid, gid,
         linkTarget, rdevMajor, rdevMinor, hardLinkFirstNdx := -1, checksum }

/-- Receive an entry whose flags have been read. -/
def recvFileEntryInner (protocol checksumLen xflags : ℕ) (prev : Option FileInfo)
    (flistSoFar : List FileInfo) (ndxStart : ℤ) : Session Reply FileInfo := do
  let fullName ← readName xflags prev
  if 30 ≤ protocol ∧ hasFlag xflags xmitHlinked ∧ ¬ hasFlag xflags xmitHlinkFirst then
    readFollower (splitName fullName) flistSoFar ndxStart
  else
    readFields protocol checksumLen xflags prev (splitName fullName)
