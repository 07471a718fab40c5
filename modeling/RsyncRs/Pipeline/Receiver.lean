import RsyncRs.Delta.DeflateToken
import RsyncRs.Fs.Call
import RsyncRs.Pipeline.Delta
import RsyncRs.Pipeline.Item

/-!
# Receiver

The receiver makes the directories of the file list, requests the regular files that are
missing or differ from what is listed, installs what the sender replies, and makes symbolic
and hard links. Then both sides end their phases.
-/

variable {F : Flate}

/-- What a receiver works on. -/
structure ReceiverArgs where
  /-- The files listed by the sender. -/
  flist : FileList
  /-- The directory they go to. -/
  destDir : FsPath
  /-- Checksum type. -/
  csumType : CsumType
  /-- The version of the protocol. -/
  protocol : ℕ
  /-- The seed of the checksums of blocks. -/
  checksumSeed : ℤ
  /-- Tokens are deflated. -/
  useZlib : Bool := false
  /-- Files are written in place. -/
  inplace : Bool := false
  /-- Files are requested whatever their size and time are. -/
  useChecksum : Bool := false
  /-- Files that are newer at the destination are skipped. -/
  update : Bool := false
  /-- Files that exist at the destination are skipped. -/
  ignoreExisting : Bool := false
  /-- Larger files are skipped. -/
  maxSize : Option ℤ := none
  /-- Smaller files are skipped. -/
  minSize : Option ℤ := none
  /-- Directories with files that may be linked to. -/
  linkDest : List FsPath := []
  /-- The number of the process. -/
  pid : ℕ := 0
deriving DecidableEq, Repr

/-- State of a receiver. -/
structure Receiver where
  /-- The coding of indices read. -/
  rx : NdxState := {}
  /-- The coding of indices written. -/
  tx : NdxState := {}
  /-- Counters. -/
  stats : Stats := {}
deriving DecidableEq, Repr

namespace Receiver

/-! ### Which files are requested -/

/-- The size of the file is not within the limits. -/
def outsideLimits (args : ReceiverArgs) (fi : FileInfo) : Bool :=
  (args.maxSize.any fun max => max < fi.size) || args.minSize.any fun min => fi.size < min

/-- The file exists at the destination and is not to be touched. -/
def existsAlready (args : ReceiverArgs) (destPath : FsPath) : Session FsReply Bool :=
  if args.ignoreExisting then Fs.pathExists destPath else pure false

/-- The file at the destination is newer and is not to be touched. -/
def destNewer (args : ReceiverArgs) (fi : FileInfo) (destPath : FsPath) : Session FsReply Bool :=
  if args.update then do
    if ← Fs.pathExists destPath then
      match ← Fs.metadata destPath with
      | .ok m => pure (fi.modtime < m.mtime)
      | .error _ => pure false
    else
      pure false
  else
    pure false

/-- Make the directory of a file. -/
def createParent (path : FsPath) : Session FsReply Unit :=
  match path.parent with
  | some parent => Fs.orIgnore (Fs.createDirAll parent)
  | none => pure ()

/-- Put a hard link to the file at `ldPath` in the place of `destPath`. -/
def linkTo (ldPath destPath : FsPath) : Session FsReply Bool := do
  createParent destPath
  Fs.orIgnore (Fs.removeFile (linkTmp destPath))
  match ← Fs.hardLink ldPath (linkTmp destPath) with
  | .error _ => pure false
  | .ok () =>
    match ← Fs.rename (linkTmp destPath) destPath with
    | .ok () => pure true
    | .error _ =>
      Fs.orIgnore (Fs.removeFile (linkTmp destPath))
      pure false

/-- The path of the file below the directory `ld` of files that may be linked to. -/
def linkDestPath (args : ReceiverArgs) (fi : FileInfo) (ld : FsPath) : FsPath :=
  (if ld.isAbsolute then ld else args.destDir.join ld).join fi.path

/-- Link to the first file with the size and the time of `fi`, and tell whether there is
one. -/
def linkFirst (args : ReceiverArgs) (fi : FileInfo) (destPath : FsPath) :
    List FsPath → Session FsReply Bool
  | [] => pure false
  | ld :: lds => do
    match ← Fs.symlinkMetadata (linkDestPath args fi ld) with
    | .error _ => linkFirst args fi destPath lds
    | .ok m =>
      if m.isFile ∧ m.len = asUsize fi.size ∧ m.mtime = fi.modtime then
        if ← linkTo (linkDestPath args fi ld) destPath then
          pure true
        else
          linkFirst args fi destPath lds
      else
        linkFirst args fi destPath lds

/-- The file at the destination is not the one that is listed, as far as its size and its
time tell. -/
def needsTransfer (args : ReceiverArgs) (fi : FileInfo) (destPath : FsPath) :
    Session FsReply Bool :=
  if args.useChecksum then
    pure true
  else do
    match ← Fs.metadata destPath with
    | .error _ => pure true
    | .ok m => pure (m.len ≠ asUsize fi.size ∨ m.mtime ≠ fi.modtime)

/-! ### Requests and replies -/

/-- The basis of a file with its head and its checksums. -/
structure Basis where
  /-- The content at the destination. -/
  data : List UInt8
  /-- The layout of its blocks. -/
  head : SumHead
  /-- The checksums of its blocks. -/
  sums : List SumBuf
deriving DecidableEq, Repr

/-- Read the file at the destination and compute its checksums. Without a file the basis is
empty. -/
def readBasis (dig : Digests) (args : ReceiverArgs) (destPath : FsPath) :
    Session FsReply Basis := do
  match ← Fs.readFile destPath with
  | .ok data =>
    let head := makeSumHead data.length (csumSumLen args.csumType)
    let sums ← computeSumBufs dig data head args.csumType (asU32 args.checksumSeed) false
    pure { data, head, sums }
  | .error _ =>
    pure { data := [], head := ⟨0, 0, csumSumLen args.csumType, 0⟩, sums := [] }

/-- Request the data of the file with the index `ndx`. -/
def requestFile (dig : Digests) (args : ReceiverArgs) (tx : NdxState) (ndx : ℤ)
    (destPath : FsPath) : Session FsReply (NdxState × Basis) := do
  let tx ← writeIndex args.protocol tx ndx
  writeIflags args.protocol itemTransfer
  let basis ← readBasis dig args destPath
  writeSumHead basis.head
  writeSumBufs basis.sums
  flushOk
  pure (tx, basis)

/-- Read one deflated token and add what it stands for. -/
def deflatedStep (F : Flate) (basis : List UInt8) (head : SumHead)
    (s : DeflatedTokenReader F × List UInt8) :
    Session FsReply ((DeflatedTokenReader F × List UInt8) ⊕ List UInt8) := do
  let (tok, tr) ← s.1.readToken
  match tok with
  | none => pure (.inr s.2)
  | some (.literal data) => pure (.inl (tr, s.2 ++ data))
  | some (.blockMatch idx) =>
    let block ← basisBlock basis head idx
    let tr ← tr.seeBlock block
    pure (.inl (tr, s.2 ++ block))

/-- Read the tokens of a file and apply them to the basis. -/
def readNewData (F : Flate) (useZlib : Bool) (basis : List UInt8) (head : SumHead) :
    Session FsReply (List UInt8) :=
  if useZlib then
    Proc.loop (deflatedStep F basis head) (DeflatedTokenReader.new F, [])
  else do
    let toks ← TokenReader.readTokens
    applyDelta basis head toks

/-- What the sender replied to a request. -/
structure FileReply where
  /-- The index that was echoed. -/
  echoNdx : ℤ
  /-- The item flags that were echoed. -/
  echoIflags : ℕ
  /-- The layout of the blocks of the basis. -/
  echoHead : SumHead
  /-- The content that the tokens make. -/
  newData : List UInt8
  /-- The checksum of the file. -/
  fileSum : List UInt8
deriving DecidableEq, Repr

/-- Read the reply to a request for the data of a file. -/
def readReply (F : Flate) (args : ReceiverArgs) (rx : NdxState) (basis : List UInt8) :
    Session FsReply (FileReply × NdxState) := do
  let (echoNdx, rx) ← readIndex args.protocol rx
  let echoIflags ← readIflags args.protocol
  let echoHead ← readSumHead
  let newData ← readNewData F args.useZlib basis echoHead
  let fileSum ← readBytes (csumTypeToChecksumType args.csumType).digestLen
  pure ({ echoNdx, echoIflags, echoHead, newData, fileSum }, rx)

/-! ### Installing a file -/

/-- Set the permissions and the time of a file to what is listed. -/
def applyMetadata (path : FsPath) (fi : FileInfo) : Session FsReply Unit := do
  Fs.orFail (Fs.setPermissions path (fi.mode &&& 0o7777))
  Fs.orFail (Fs.setTimes path fi.modtime)

/-- The name of the temporary file for `destPath`. -/
def tmpPath (args : ReceiverArgs) (destPath : FsPath) : FsPath :=
  (destPath.parent.getD [dot]).join
    (dot :: (destPath.fileName.getD (bytesOf "file") ++ dot :: bytesOf (toString args.pid) ++
      bytesOf ".tmp"))

/-- Write the content of a file. -/
def writeContent (args : ReceiverArgs) (destPath : FsPath) (newData : List UInt8) :
    Session FsReply Unit :=
  if args.inplace then do
    Fs.orFail (Fs.createFile destPath)
    Fs.orFail (Fs.writeFile destPath newData)
  else do
    Fs.orFail (Fs.createFile (tmpPath args destPath))
    Fs.orFail (Fs.writeFile (tmpPath args destPath) newData)
    Fs.orFail (Fs.rename (tmpPath args destPath) destPath)

/-- Put a file with the given content in its place. -/
def install (args : ReceiverArgs) (fi : FileInfo) (destPath : FsPath) (newData : List UInt8) :
    Session FsReply Unit := do
  createParent destPath
  let _ ← Fs.metadata destPath
  writeContent args destPath newData
  applyMetadata destPath fi

/-- The counters after a file has been installed. -/
def installed (stats : Stats) (newData : List UInt8) : Stats :=
  { stats with numFiles := wrapI64 (stats.numFiles + 1),
               xferredFiles := wrapI64 (stats.xferredFiles + 1),
               createdFiles := wrapI64 (stats.createdFiles + 1),
               totalWritten := wrapI64 (stats.totalWritten + newData.length) }

/-! ### The files of the list -/

/-- The index of the `i`-th file. -/
def ndxOf (args : ReceiverArgs) (i : ℕ) : ℤ :=
  wrapI32 (args.flist.ndxStart + wrapI32 i)

/-- Request a file, read the reply and install it. -/
def transfer (dig : Digests) (F : Flate) (args : ReceiverArgs) (s : Receiver) (i : ℕ)
    (fi : FileInfo) (destPath : FsPath) : Session FsReply Receiver := do
  let (tx, basis) ← requestFile dig args s.tx (ndxOf args i) destPath
  let (reply, rx) ← readReply F args s.rx basis.data
  install args fi destPath reply.newData
  pure { rx := rx, tx := tx, stats := installed s.stats reply.newData }

/-- Request a file unless it can be skipped or linked. -/
def receiveRegular (dig : Digests) (F : Flate) (args : ReceiverArgs) (s : Receiver) (i : ℕ)
    (fi : FileInfo) (destPath : FsPath) : Session FsReply Receiver := do
  if ← existsAlready args destPath then
    pure s
  else if ← destNewer args fi destPath then
    pure s
  else if ← linkFirst args fi destPath args.linkDest then
    pure { s with stats.xferredFiles := wrapI64 (s.stats.xferredFiles + 1) }
  else if ← needsTransfer args fi destPath then
    transfer dig F args s i fi destPath
  else
    pure s

/-- The `i`-th file is one that may be requested. -/
def mayRequest (args : ReceiverArgs) (fi : FileInfo) : Bool :=
  fi.isRegular && fi.hardLinkFirstNdx < 0 && !outsideLimits args fi

/-- Receive the `i`-th file of the list if it is a regular one. -/
def receiveFile (dig : Digests) (F : Flate) (args : ReceiverArgs) (s : Receiver)
    (entry : FileInfo × ℕ) : Session FsReply Receiver :=
  if mayRequest args entry.1 then
    receiveRegular dig F args s entry.2 entry.1 (args.destDir.join entry.1.path)
  else
    pure s

/-- Make the directory of an entry that is one. -/
def makeDir (args : ReceiverArgs) (_ : Unit) (fi : FileInfo) : Session FsReply Unit :=
  if fi.isDir then Fs.orIgnore (Fs.createDirAll (args.destDir.join fi.path)) else pure ()

/-- Make the symbolic link of an entry that is one. -/
def makeSymlink (args : ReceiverArgs) (_ : Unit) (fi : FileInfo) : Session FsReply Unit :=
  if fi.isSymlink then do
    Fs.orIgnore (Fs.removeFile (args.destDir.join fi.path))
    Fs.orIgnore (Fs.symlink (fi.linkTarget.getD []) (args.destDir.join fi.path))
  else
    pure ()

/-- The first file of the group of hard links that the entry belongs to. -/
def leaderOf (args : ReceiverArgs) (fi : FileInfo) : Option FileInfo :=
  if fi.hardLinkFirstNdx < 0 then none
  else args.flist.files[asUsize (wrapI32 (fi.hardLinkFirstNdx - args.flist.ndxStart))]?

/-- Make the hard link of an entry that belongs to a group. -/
def makeHardLink (args : ReceiverArgs) (_ : Unit) (fi : FileInfo) : Session FsReply Unit :=
  match leaderOf args fi with
  | none => pure ()
  | some first => do
    let leaderPath := args.destDir.join first.path
    let followerPath := args.destDir.join fi.path
    createParent followerPath
    Fs.orIgnore (Fs.removeFile followerPath)
    match ← Fs.hardLink leaderPath followerPath with
    | .ok () => pure ()
    | .error _ => Fs.orIgnore (Fs.copyFile leaderPath followerPath)

/-! ### End of the session -/

/-- Send the mark that ends a phase. -/
def sendDone (args : ReceiverArgs) (s : Receiver) : Session FsReply Receiver := do
  let tx ← writeIndex args.protocol s.tx ndxDone
  flushOk
  pure { s with tx := tx }

/-- Read the mark of the sender. -/
def readDone (args : ReceiverArgs) (s : Receiver) : Session FsReply Receiver := do
  let (_, rx) ← readIndex args.protocol s.rx
  pure { s with rx := rx }

/-- End a phase and read the echo of the sender. -/
def exchangeDone (args : ReceiverArgs) (s : Receiver) (_ : ℕ) : Session FsReply Receiver := do
  let s ← sendDone args s
  readDone args s

/-- The last exchange of marks. -/
def goodbye (args : ReceiverArgs) (s : Receiver) : Session FsReply Receiver := do
  let s ← Proc.forEach (exchangeDone args) s (List.range (maxPhase args.protocol))
  let s ← sendDone args s
  let s ← sendDone args s
  if 31 ≤ args.protocol then
    let s ← readDone args s
    sendDone args s
  else
    match ← okOrNone (readDone args s) with
    | some s => pure s
    | none => pure s

/-- Receive the files of the list. -/
def run (dig : Digests) (F : Flate) (args : ReceiverArgs) (s : Receiver) :
    Session FsReply Receiver := do
  Proc.forEach (makeDir args) () args.flist.files
  let s ← Proc.forEach (receiveFile dig F args) s args.flist.files.zipIdx
  Proc.forEach (makeSymlink args) () args.flist.files
  Proc.forEach (makeHardLink args) () args.flist.files
  goodbye args s

end Receiver
