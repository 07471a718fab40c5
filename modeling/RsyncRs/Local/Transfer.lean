import RsyncRs.Flist.Walk
import RsyncRs.Local.Copy
import RsyncRs.Str

/-!
# Local transfers

The sources are copied one after the other, directories with all that is in them. What the run did
not keep is removed at the end when that is asked for.
-/

namespace Local

/-- What the copying of a source depends on. -/
structure Copying where
  env : LocalEnv := {}
  opts : Options := {}
  filter : FilterList := {}
  maxSize : Option ℤ := none
  minSize : Option ℤ := none

/-- The directories under a source are copied too. -/
def recurses (opts : Options) : Bool :=
  opts.recursive || opts.archive

/-- The size of a regular file is not within the limits. -/
def outsideLimits (c : Copying) (m : Metadata) : Bool :=
  m.isFile && ((c.maxSize.any fun max => max < wrapI64 m.len) ||
    c.minSize.any fun min => wrapI64 m.len < min)

/-- Do what changes files, unless nothing is to be changed. -/
def unlessDry (opts : Options) (p : Session FsReply Unit) : Session FsReply Unit :=
  if opts.dryRun then pure () else p

/-! ### Directories -/

/-- Copy what is in a directory: its path, the directory to copy to, and its path relative to the
source. The number of entries that were copied is returned. -/
abbrev CopyDir : Type 1 :=
  FsPath → FsPath → FsPath → LocalState → Session FsReply (ℕ × LocalState)

/-- Copy a directory and what is in it. -/
def copySubdir (c : Copying) (copyDir : CopyDir) (src dest rel : FsPath) (m : Metadata)
    (acc : ℕ × LocalState) : Session FsReply (ℕ × LocalState) := do
  unlessDry c.opts (Fs.orFail (Fs.createDirAll dest))
  let sub ← copyDir src dest rel acc.2
  if sub.1 = 0 ∧ c.opts.pruneEmptyDirs = true then
    unlessDry c.opts (Fs.orIgnore (Fs.removeDir dest))
    pure (acc.1, sub.2)
  else
    applyDirMeta c.opts dest m
    pure (acc.1 + 1, sub.2.keep (FsPath.components rel))

/-- The name under which a path is looked up among the rules. -/
def filterName (rel : FsPath) : Str :=
  (strOf (fromUtf8Lossy rel)).map fun c => if c = '\\' then '/' else c

/-- Copy an entry of a directory. -/
def copyChild (c : Copying) (copyDir : CopyDir) (srcDir destDir pre : FsPath)
    (acc : ℕ × LocalState) (name : Name) : Session FsReply (ℕ × LocalState) := do
  let m ← Fs.orFail (Fs.symlinkMetadata (srcDir.join name))
  if c.filter.isExcluded (filterName (pre.join name)) m.isDir then
    pure acc
  else if m.isDir then
    copySubdir c copyDir (srcDir.join name) (destDir.join name) (pre.join name) m acc
  else if outsideLimits c m then
    pure acc
  else
    let st ← copyEntry c.env c.opts (srcDir.join name) (destDir.join name) (pre.join name) m
      (acc.2.keep (FsPath.components (pre.join name)))
    pure (acc.1 + 1, st)

/-- Give the copy of a directory its times and permissions. -/
def finishDir (c : Copying) (srcDir destDir : FsPath) (acc : ℕ × LocalState) :
    Session FsReply (ℕ × LocalState) :=
  if c.opts.pruneEmptyDirs = true ∧ acc.1 = 0 then
    pure acc
  else do
    let m ← Fs.orFail (Fs.symlinkMetadata srcDir)
    applyDirMeta c.opts destDir m
    pure acc

/-- Copy what is in a directory, as long as the stack has room. -/
def copyDirRecursive (c : Copying) : ℕ → CopyDir
  | 0, _, _, _, _ => throw (.panic "stack overflow")
  | n + 1, srcDir, destDir, pre, st => do
    let names ← Fs.orFail (Fs.readDir srcDir)
    let acc ← Proc.forEach (copyChild c (copyDirRecursive c n) srcDir destDir pre) (0, st) names
    finishDir c srcDir destDir acc

/-! ### Sources -/

/-- The directory that a directory is copied to. -/
def copyInto (src destRoot : FsPath) (destIsDir : Bool) : Session FsReply FsPath :=
  if src.getLast? = some sep ∨ destIsDir = false then
    pure destRoot
  else
    match FsPath.fileName src with
    | some name => pure (destRoot.join name)
    | none => throw (.other "source path has no basename")

/-- Copy a source that is a directory. -/
def copySourceDir (c : Copying) (src destRoot : FsPath) (destIsDir : Bool) (st : LocalState) :
    Session FsReply LocalState := do
  let into ← copyInto src destRoot destIsDir
  unlessDry c.opts (Fs.orFail (Fs.createDirAll into))
  let sub ← copyDirRecursive c c.env.stack src into [] st
  if sub.1 = 0 ∧ c.opts.pruneEmptyDirs = true ∧ destIsDir = true then
    unlessDry c.opts (Fs.orIgnore (Fs.removeDir into))
    pure sub.2
  else
    match FsPath.stripPrefix into destRoot with
    | some rel => pure (sub.2.keep rel)
    | none => pure sub.2

/-- Copy a source that is no directory. -/
def copySourceFile (c : Copying) (src destRoot : FsPath) (destIsDir : Bool) (m : Metadata)
    (st : LocalState) : Session FsReply LocalState :=
  match FsPath.fileName src with
  | none => throw (.other "source has no basename")
  | some name => do
    let dest := if destIsDir then destRoot.join name else destRoot
    let st ← copyEntry c.env c.opts src dest name m st
    match FsPath.stripPrefix dest destRoot with
    | some rel => pure (st.keep rel)
    | none => pure st

/-- Copy a source. -/
def copyOne (c : Copying) (destRoot : FsPath) (destIsDir : Bool) (st : LocalState)
    (src : FsPath) : Session FsReply LocalState := do
  let m ← Fs.orFail (Fs.symlinkMetadata src)
  if m.isDir then
    if recurses c.opts then copySourceDir c src destRoot destIsDir st else pure st
  else if outsideLimits c m then
    pure st
  else
    copySourceFile c src destRoot destIsDir m st

/-! ### Lists of files -/

/-- Copy a directory that a list names. -/
def copyListedDir (c : Copying) (base destRoot rel : FsPath) (st : LocalState) :
    Session FsReply LocalState := do
  unlessDry c.opts (Fs.orFail (Fs.createDirAll (destRoot.join rel)))
  if recurses c.opts then
    let sub ← copyDirRecursive c c.env.stack (base.join rel) (destRoot.join rel) rel st
    if sub.1 = 0 ∧ c.opts.pruneEmptyDirs = true then
      unlessDry c.opts (Fs.orIgnore (Fs.removeDir (destRoot.join rel)))
      pure sub.2
    else
      pure (sub.2.keep (FsPath.components rel))
  else
    pure (st.keep (FsPath.components rel))

/-- Copy what a line of a list names. -/
def copyListed (c : Copying) (base destRoot : FsPath) (st : LocalState) (line : Str) :
    Session FsReply LocalState :=
  match pathOfLine line with
  | none => pure st
  | some rel => do
    match ← Fs.symlinkMetadata (base.join rel) with
    | .error _ => pure st
    | .ok m =>
      if m.isDir then
        copyListedDir c base destRoot rel st
      else if outsideLimits c m then
        pure st
      else
        unlessDry c.opts (createParent (destRoot.join rel))
        let st ← copyEntry c.env c.opts (base.join rel) (destRoot.join rel) rel m st
        pure (st.keep (FsPath.components rel))

/-- Copy the files that a list names. -/
def copyFromFilesFrom (c : Copying) (base list destRoot : FsPath) (st : LocalState) :
    Session FsReply LocalState := do
  let content ← Fs.orFail (Fs.readFile list)
  match Str.fromUtf8 content with
  | none => throw (.io "stream did not contain valid UTF-8")
  | some content => Proc.forEach (copyListed c base destRoot) st content.lines

/-! ### Removal of what was not kept -/

/-- Remove a file that was not kept. -/
def removeExtraneous (opts : Options) (path : FsPath) : Session FsReply Unit :=
  unlessDry opts do
    let m ← Fs.orFail (Fs.symlinkMetadata path)
    if m.isDir then Fs.orFail (Fs.removeDirAll path) else Fs.orFail (Fs.removeFile path)

/-- Remove an entry of a directory, or what is in it, unless it was kept. -/
def deleteEntry (opts : Options) (kept : List (List FsPath.Component)) (root : FsPath)
    (walk : FsPath → LocalReport → Session FsReply LocalReport) (cur : FsPath)
    (report : LocalReport) (name : Name) : Session FsReply LocalReport := do
  let path := cur.join name
  let rel := (FsPath.stripPrefix path root).getD (FsPath.components path)
  if rel ∈ kept then
    let m ← Fs.orFail (Fs.symlinkMetadata path)
    if m.isDir then walk path report else pure report
  else
    removeExtraneous opts path
    pure { report with deleted := report.deleted ++ [rel] }

/-- Remove what is in a directory and was not kept, as long as the stack has room. -/
def deleteWalk (opts : Options) (kept : List (List FsPath.Component)) (root : FsPath) :
    ℕ → FsPath → LocalReport → Session FsReply LocalReport
  | 0, _, _ => throw (.panic "stack overflow")
  | n + 1, cur, report => do
    let names ← Fs.orFail (Fs.readDir cur)
    Proc.forEach (deleteEntry opts kept root (deleteWalk opts kept root n) cur) report names

/-! ### Runs -/

/-- The destination is a directory, or the directory that a path names. -/
def isDirectory (path : FsPath) : Session FsReply Bool := do
  match ← Fs.metadata path with
  | .ok m => pure m.isDir
  | .error _ => pure false

/-- The destination is treated as a directory. -/
def destIsDir (sources : List FsPath) (dest : FsPath) : Session FsReply Bool :=
  if dest.getLast? = some sep ∨ 1 < sources.length then pure true else isDirectory dest

/-- What the copying of the sources depends on. -/
def copying (env : LocalEnv) (opts : Options) : Copying where
  env
  opts
  filter := (FilterList.fromOptions env.readToString opts).toOption.getD {}
  maxSize := opts.maxSize.bind env.parseSizeStr
  minSize := opts.minSize.bind env.parseSizeStr

/-- Copy the sources, or the files that a list names. -/
def copySources (c : Copying) (sources : List FsPath) (dest : FsPath) (isDir : Bool) :
    Session FsReply LocalState :=
  match c.opts.filesFrom with
  | some list => copyFromFilesFrom c (sources.headD [dot]) list.bytes dest {}
  | none => Proc.forEach (copyOne c dest isDir) {} sources

/-- A local transfer. -/
def runLocal (env : LocalEnv) (opts : Options) (sources : List FsPath) (dest : FsPath) :
    Session FsReply LocalReport := do
  let isDir ← destIsDir sources dest
  if isDir then unlessDry opts (Fs.orFail (Fs.createDirAll dest)) else pure ()
  let st ← copySources (copying env opts) sources dest isDir
  if opts.delete && isDir then
    deleteWalk opts st.kept dest env.stack dest st.report
  else
    pure st.report

end Local
