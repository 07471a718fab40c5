import RsyncRs.Flist.Compare
import RsyncRs.Flist.Entry

/-!
# File lists on the wire

The entries of a file list are sent one after the other, followed by a trailer. The receiver
sorts them again, and references to the first file of a group of hard links follow the files
to their new places.
-/

variable {X : Type} {Reply : X → Type}

/-- Compatibility flag: the list is sent in parts. -/
def cfIncRecurse : ℕ := 1 <<< 0

/-- Compatibility flag: the flags of entries are integers of variable width. -/
def cfVarintFlistFlags : ℕ := 1 <<< 7

/-! ### Sending -/

/-- The files in the order in which they are sent. -/
def sendOrder (flist : FileList) : Except Error (List FileInfo) :=
  if flist.sorted = [] then
    pure flist.files
  else
    flist.sorted.mapM fun i =>
      match flist.files[i]? with
      | some fi => pure fi
      | none => throw (.panic "index out of bounds")

/-- Send an entry and keep it as the entry before the next one. -/
def sendNext (protocol checksumLen : ℕ) (preserve : Preserve) (varintFlags : Bool)
    (prev : Option FileInfo) (fi : FileInfo) : Session Reply (Option FileInfo) := do
  sendFileEntry protocol checksumLen preserve varintFlags prev fi
  pure (some fi)

/-- Send the mark that ends the list. -/
def sendEndOfList (protocol : ℕ) (varintFlags : Bool) (ioError : ℤ) : Session Reply Unit :=
  if varintFlags then do
    writeVarint 0
    writeVarint ioError
  else if 31 ≤ protocol ∨ ioError ≠ 0 then do
    writeShortint (xmitExtendedFlags ||| xmitIoErrorEndlist)
    writeVarint ioError
  else
    writeByte 0

/-- Send an empty list of the names of owners or of groups. -/
def sendIdList (preserved : Bool) : Session Reply Unit :=
  if preserved then writeVarint 0 else pure ()

/-- Send what follows the mark that ends the list. -/
def sendTrailer (protocol : ℕ) (preserve : Preserve) (incRecurse : Bool) (ioError : ℤ) :
    Session Reply Unit :=
  if ¬ incRecurse ∧ 30 ≤ protocol then do
    sendIdList preserve.uid
    sendIdList preserve.gid
  else if protocol < 30 then
    writeInt ioError
  else
    pure ()

/-- Send a file list. -/
def sendFileListEx (flist : FileList) (protocol checksumLen : ℕ) (ioError : ℤ)
    (preserve : Preserve) (compatFlags : ℕ) : Session Reply Unit := do
  let varintFlags := hasFlag compatFlags cfVarintFlistFlags
  let order ← sendOrder flist
  let _ ← Proc.forEach (sendNext protocol checksumLen preserve varintFlags) none order
  sendEndOfList protocol varintFlags ioError
  sendTrailer protocol preserve (hasFlag compatFlags cfIncRecurse) ioError

/-! ### Receiving -/

/-- Read one name of an owner or of a group, unless the list ends. -/
def recvIdEntry (_ : Unit) : Session Reply (Unit ⊕ Unit) := do
  let id ← readVarint
  if asU32 id = 0 then
    pure (.inr ())
  else
    skipIdName
    pure (.inl ())

/-- Read a list of the names of owners or of groups. -/
def recvIdList (preserved : Bool) : Session Reply Unit :=
  if preserved then Proc.loop recvIdEntry () else pure ()

/-- Read what follows the mark that ends the list. -/
def recvTrailer (protocol : ℕ) (preserveUid preserveGid varintFlags incRecurse : Bool) :
    Session Reply Unit := do
  let () ← recvInlineError varintFlags
  if ¬ incRecurse ∧ 30 ≤ protocol then
    recvIdList preserveUid
    recvIdList preserveGid
  else if protocol < 30 then
    let _ ← readInt
    pure ()
  else
    pure ()
where
  /-- Read the error code after flags of variable width. -/
  recvInlineError (varintFlags : Bool) : Session Reply Unit :=
    if varintFlags then do
      let _ ← readVarint
      pure ()
    else
      pure ()

/-- Receive an entry, or the trailer. -/
def recvNext (protocol checksumLen : ℕ) (preserveUid preserveGid : Bool) (compatFlags : ℕ)
    (files : List FileInfo) : Session Reply (List FileInfo ⊕ List FileInfo) := do
  let xflags ← readXflags protocol (hasFlag compatFlags cfVarintFlistFlags)
  if xflags = 0 then
    recvTrailer protocol preserveUid preserveGid (hasFlag compatFlags cfVarintFlistFlags)
      (hasFlag compatFlags cfIncRecurse)
    pure (.inr files)
  else
    let fi ← recvFileEntryInner protocol checksumLen xflags files.getLast? files
      ({} : FileList).ndxStart
    pure (.inl (files ++ [fi]))

/-- The files in order, with the indices they had. -/
def sortIndexed (files : List FileInfo) : List (FileInfo × ℕ) :=
  files.zipIdx.mergeSort fun a b => fileLe a.1 b.1

/-- The new index of the file that had the index `old`. -/
def oldToNew (files : List FileInfo) (old : ℕ) : ℕ :=
  (sortIndexed files).findIdx fun entry => entry.2 = old

/-- The file with its reference to the first file of its group at the new place. -/
def remapHardLink (files : List FileInfo) (ndxStart : ℤ) (fi : FileInfo) : FileInfo :=
  if 0 ≤ fi.hardLinkFirstNdx ∧
      asUsize (wrapI32 (fi.hardLinkFirstNdx - ndxStart)) < files.length then
    { fi with hardLinkFirstNdx :=
        wrapI32 (wrapI32 (oldToNew files (asUsize (wrapI32 (fi.hardLinkFirstNdx - ndxStart)))) +
          ndxStart) }
  else
    fi

/-- Nothing else of the file changes. -/
theorem remapHardLink_eq
    (files : List FileInfo) (ndxStart : ℤ) (fi : FileInfo) :
  ∃ ndx, remapHardLink files ndxStart fi = { fi with hardLinkFirstNdx := ndx }
  := by
  unfold remapHardLink
  split
  · exact ⟨_, rfl⟩
  · exact ⟨fi.hardLinkFirstNdx, rfl⟩

/-- The list of the files received. -/
def sortReceived (files : List FileInfo) : FileList :=
  { files := (sortIndexed files).map fun entry =>
      remapHardLink files ({} : FileList).ndxStart entry.1,
    sorted := List.range files.length }

/-- Receive a file list. -/
def recvFileListEx (protocol checksumLen : ℕ) (preserveUid preserveGid : Bool)
    (compatFlags : ℕ) : Session Reply FileList := do
  let files ← Proc.loop
    (recvNext protocol checksumLen preserveUid preserveGid compatFlags) []
  pure (sortReceived files)
