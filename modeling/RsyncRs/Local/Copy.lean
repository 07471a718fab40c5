import RsyncRs.Filter.Rules
import RsyncRs.Fs.Call
import RsyncRs.Utf8

/-!
# Copying one file

In a local transfer each entry of the sources is copied to a path of the destination, unless it is
skipped or linked.
-/

/-- What a local transfer tells of itself. -/
structure LocalReport where
  stats : Stats := {}
  /-- Files that were transferred. -/
  xferred : List FsPath := []
  /-- Files that were removed, relative to the destination. -/
  deleted : List (List FsPath.Component) := []
  /-- Files that were linked. -/
  hardlinked : List FsPath := []
deriving DecidableEq, Repr

/-- State of a local transfer. -/
structure LocalState where
  report : LocalReport := {}
  /-- Paths relative to the destination that are not to be removed. -/
  kept : List (List FsPath.Component) := []
  /-- The first path that each file with several names was copied to. -/
  links : List ((ℕ × ℕ) × FsPath) := []
deriving DecidableEq, Repr

/-- What a local transfer depends on besides its options. -/
structure LocalEnv where
  /-- The content of the files with rules. -/
  readToString : Str → Except String Str := fun _ => .error "not found"
  /-- The size that a text says. -/
  parseSizeStr : Str → Option ℤ := fun _ => none
  /-- The number of the process. -/
  pid : ℕ := 0
  /-- Number of calls that the stack has room for. -/
  stack : ℕ := 0

namespace LocalState

/-- One more file has been transferred, or would have been. -/
def countXfer (st : LocalState) : LocalState :=
  { st with report.stats.xferredFiles := wrapI64 (st.report.stats.xferredFiles + 1) }

/-- The state after a file was linked to another one. -/
def linkedTo (st : LocalState) (dest : FsPath) : LocalState :=
  { st.countXfer with report.hardlinked := st.report.hardlinked ++ [dest] }

/-- The state after a file was transferred. -/
def transferred (st : LocalState) (dest : FsPath) : LocalState :=
  { st.countXfer with report.xferred := st.report.xferred ++ [dest] }

/-- The state after the bytes of a file were counted. -/
def countBytes (st : LocalState) (len : ℕ) : LocalState :=
  { st with report.stats.totalSize := wrapI64 (st.report.stats.totalSize + wrapI64 len),
            report.stats.totalWritten := wrapI64 (st.report.stats.totalWritten + wrapI64 len) }

/-- The path is not to be removed. -/
def keep (st : LocalState) (rel : List FsPath.Component) : LocalState :=
  { st with kept := rel :: st.kept }

/-- The first path that the file with the given key is copied to. -/
def record (st : LocalState) (key : ℕ × ℕ) (dest : FsPath) : LocalState :=
  { st with links := (key, dest) :: st.links }

end LocalState

namespace Local

/-! ### Hard links -/

/-- The key of a file that may have been copied under another name. -/
def inodeKey (opts : Options) (m : Metadata) : Option (ℕ × ℕ) :=
  if opts.hardLinks && m.isFile && 1 < m.nlink then some (m.dev, m.ino) else none

/-- Make the directory of a file. -/
def createParent (path : FsPath) : Session FsReply Unit :=
  match path.parent with
  | some parent => if parent = [] then pure () else Fs.orFail (Fs.createDirAll parent)
  | none => pure ()

/-- Link to the file at `first`. -/
def linkToFirst (opts : Options) (first dest : FsPath) : Session FsReply Unit :=
  if opts.dryRun then
    pure ()
  else do
    createParent dest
    Fs.orIgnore (Fs.removeFile dest)
    Fs.orFail (Fs.hardLink first dest)

/-! ### What is skipped -/

/-- The first time is later than the second. -/
def later (a b : Metadata) : Bool :=
  b.mtime < a.mtime || (a.mtime = b.mtime && b.mtimeNsec < a.mtimeNsec)

/-- Both files have the same time. -/
def sameTime (a b : Metadata) : Bool :=
  a.mtime = b.mtime && a.mtimeNsec = b.mtimeNsec

/-- The file at the destination looks like the one at the source. -/
def destMetaInSync (destMeta : Option Metadata) (m : Metadata) : Bool :=
  match destMeta with
  | none => false
  | some d =>
    if d.isDir ≠ m.isDir then false
    else if d.isFile && m.isFile && d.len ≠ m.len then false
    else sameTime d m

/-- The file at the destination is newer. -/
def destNewer (opts : Options) (destMeta : Option Metadata) (m : Metadata) : Bool :=
  opts.update && destMeta.any fun d => later d m

/-- The file exists at the destination and is not to be touched. -/
def existsAlready (opts : Options) (dest : FsPath) : Session FsReply Bool :=
  if opts.ignoreExisting then Fs.pathExists dest else pure false

/-! ### Directories to link to -/

/-- The root of the destination, when `rel` is the path of `dest` below it. -/
def destRootOf (dest rel : FsPath) : FsPath :=
  (fun p => (FsPath.parent p).getD p)^[(FsPath.components rel).length] dest

/-- The path of a file below the directory `ld` of files that may be linked to. -/
def linkDestPath (dest rel ld : FsPath) : FsPath :=
  (if ld.isAbsolute then ld else (destRootOf dest rel).join ld).join rel

/-- Make the directory of a file, if that is possible. -/
def tryCreateParent (path : FsPath) : Session FsReply Unit :=
  match path.parent with
  | some parent => if parent = [] then pure () else Fs.orIgnore (Fs.createDirAll parent)
  | none => pure ()

/-- Put a link to the file at `ldPath` in the place of `dest`, and tell whether it is there. -/
def linkFrom (ldPath dest : FsPath) : Session FsReply Bool := do
  tryCreateParent dest
  Fs.orIgnore (Fs.removeFile (linkTmp dest))
  match ← Fs.hardLink ldPath (linkTmp dest) with
  | .error _ =>
    Fs.orIgnore (Fs.removeFile (linkTmp dest))
    pure false
  | .ok () =>
    match ← Fs.rename (linkTmp dest) dest with
    | .ok () => pure true
    | .error _ =>
      Fs.orIgnore (Fs.removeFile (linkTmp dest))
      pure false

/-- Link to the first file that has the size and the time of the source, and tell whether there is
one. No other file is looked for when the link cannot be made. -/
def linkFirst (opts : Options) (dest rel : FsPath) (m : Metadata) :
    List FsPath → Session FsReply Bool
  | [] => pure false
  | ld :: lds => do
    match ← Fs.symlinkMetadata (linkDestPath dest rel ld) with
    | .error _ => linkFirst opts dest rel m lds
    | .ok m' =>
      if m'.isFile && m'.len = m.len && sameTime m' m then
        if opts.dryRun then pure true else linkFrom (linkDestPath dest rel ld) dest
      else
        linkFirst opts dest rel m lds

/-- Link to a file of the directories to link to, if there is one. -/
def linkFromDest (opts : Options) (dest rel : FsPath) (m : Metadata) : Session FsReply Bool :=
  if m.isFile then linkFirst opts dest rel m (opts.linkDest.map Str.bytes) else pure false

/-! ### Backups -/

/-- What is added to the name of a backup. -/
def backupSuffix (opts : Options) : FsPath :=
  match opts.suffix with
  | some suffix => suffix.bytes
  | none => if opts.backupDir.isSome then [] else bytesOf "~"

/-- The path of the backup of a file. -/
def backupPath (opts : Options) (dest : FsPath) : FsPath :=
  match opts.backupDir with
  | some dir => FsPath.join dir.bytes ((dest.fileName.getD []) ++ backupSuffix opts)
  | none => dest ++ backupSuffix opts

/-- Keep what is at `dest` at the path of its backup. -/
def backupFile (opts : Options) (dest : FsPath) : Session FsReply Unit :=
  match opts.backupDir with
  | some _ => do
    createParent (backupPath opts dest)
    Fs.orFail (Fs.copyFile dest (backupPath opts dest))
  | none =>
    if FsPath.components (backupPath opts dest) = FsPath.components dest then pure ()
    else Fs.orFail (Fs.rename dest (backupPath opts dest))

/-- Keep what is at `dest` when backups are made and it exists. -/
def backup (opts : Options) (dest : FsPath) : Session FsReply Unit :=
  if opts.backup then do
    if ← Fs.pathExists dest then backupFile opts dest else pure ()
  else
    pure ()

/-! ### Copies -/

/-- The temporary name of a copy. -/
def tmpSibling (env : LocalEnv) (dest : FsPath) : FsPath :=
  let name := ((FsPath.fileName dest).map fromUtf8Lossy).getD (bytesOf "tmp")
  let parent := ((FsPath.parent dest).filter fun p => p ≠ []).getD [dot]
  FsPath.join parent (dot :: (name ++ dot :: bytesOf (toString env.pid) ++ bytesOf ".tmp"))

/-- Copy a file to its temporary name, and move it to `dest`. -/
def copyThrough (src tmp dest : FsPath) : Session FsReply (Except String Unit) := do
  match ← Fs.copyFile src tmp with
  | .ok () => Fs.rename tmp dest
  | .error e => pure (.error e)

/-- Copy a regular file. -/
def copyRegular (env : LocalEnv) (src dest : FsPath) : Session FsReply Unit := do
  createParent dest
  match ← copyThrough src (tmpSibling env dest) dest with
  | .ok () => pure ()
  | .error e =>
    Fs.orIgnore (Fs.removeFile (tmpSibling env dest))
    throw (.io e)

/-- Copy a symbolic link. -/
def copySymlink (src dest : FsPath) : Session FsReply Unit := do
  let target ← Fs.orFail (Fs.readLink src)
  Fs.orIgnore (Fs.removeFile dest)
  Fs.orFail (Fs.symlink target dest)

/-- Set the times of a file. Times before 1970 are set to its start. -/
def setTime (dest : FsPath) (m : Metadata) : Session FsReply Unit :=
  Fs.orIgnore (Fs.setLinkTimes dest (if m.mtime < 0 then 0 else m.mtime)
    (if m.mtime < 0 then 0 else m.mtimeNsec))

/-- Do what the option asks for. -/
def whenever (b : Bool) (p : Session FsReply Unit) : Session FsReply Unit :=
  if b then p else pure ()

/-- Give a copy the times, the permissions and the owner of its source. -/
def applyFileMeta (opts : Options) (dest : FsPath) (m : Metadata) : Session FsReply Unit := do
  whenever (opts.times || opts.archive) (setTime dest m)
  whenever (opts.perms || opts.archive)
    (Fs.orIgnore (Fs.setPermissions dest (m.mode &&& 0o7777)))
  whenever (opts.owner || opts.group || opts.archive)
    (Fs.orIgnore (Fs.chown dest (if opts.owner || opts.archive then some m.uid else none)
      (if opts.group || opts.archive then some m.gid else none)))

/-- Give a directory the times and the permissions of its source. -/
def applyDirMeta (opts : Options) (dest : FsPath) (m : Metadata) : Session FsReply Unit :=
  if opts.dryRun || !(opts.times || opts.archive) || opts.omitDirTimes then
    pure ()
  else do
    setTime dest m
    whenever (opts.perms || opts.archive)
      (Fs.orIgnore (Fs.setPermissions dest (m.mode &&& 0o7777)))

/-! ### Entries -/

/-- Copy an entry that is not skipped. -/
def transferEntry (env : LocalEnv) (opts : Options) (src dest : FsPath) (m : Metadata)
    (st : LocalState) : Session FsReply LocalState := do
  backup opts dest
  if m.isSymlink then
    copySymlink src dest
    pure (st.transferred dest)
  else if m.isFile then
    copyRegular env src dest
    whenever opts.xattrs (Fs.orIgnore (Fs.copyXattrs src dest))
    applyFileMeta opts dest m
    pure ((st.countBytes m.len).transferred dest)
  else
    pure st

/-- Copy an entry that is linked to no other one, unless it is skipped. -/
def copyUnlinked (env : LocalEnv) (opts : Options) (src dest rel : FsPath) (m : Metadata)
    (st : LocalState) : Session FsReply LocalState := do
  let destMeta ← Fs.symlinkMetadata dest
  if !opts.checksum && destMetaInSync destMeta.toOption m then
    pure st
  else if ← existsAlready opts dest then
    pure st
  else if destNewer opts destMeta.toOption m then
    pure st
  else if ← linkFromDest opts dest rel m then
    pure (st.linkedTo dest)
  else if opts.dryRun then
    pure st.countXfer
  else
    transferEntry env opts src dest m st

/-- Copy an entry. -/
def copyEntry (env : LocalEnv) (opts : Options) (src dest rel : FsPath) (m : Metadata)
    (st : LocalState) : Session FsReply LocalState :=
  match inodeKey opts m with
  | none => copyUnlinked env opts src dest rel m st
  | some key =>
    match st.links.lookup key with
    | some first => do
      linkToFirst opts first dest
      pure (st.linkedTo dest)
    | none =>
      copyUnlinked env opts src dest rel m (if opts.dryRun then st else st.record key dest)

end Local
