import RsyncRs.Flist.Extraneous
import RsyncRs.Pipeline.Receiver

/-!
# Removal at the destination

Before a receiver deals with its list it can remove what the list does not have. The walk goes
through the destination as it is found.
-/

namespace Receiver

/-- One removed entry more. -/
def countRemoved (acc : Deleted) (info : Option Metadata) : Deleted :=
  if info.any Metadata.isDir then
    { acc with dirs := wrapI32 (acc.dirs + 1) }
  else if info.any Metadata.isSymlink then
    { acc with symlinks := wrapI32 (acc.symlinks + 1) }
  else
    { acc with files := wrapI32 (acc.files + 1) }

/-- Remove an entry that is not kept, unless nothing is to be changed. -/
def removeEntry (dryRun : Bool) (path : FsPath) (info : Option Metadata) : Session FsReply Unit :=
  if dryRun then pure ()
  else if info.any Metadata.isDir then Fs.orIgnore (Fs.removeDirAll path)
  else Fs.orIgnore (Fs.removeFile path)

/-- Remove an entry of the directory `cur`, or go into it when it is kept. -/
def deleteEntry (root : FsPath) (kept : List FsPath) (dryRun : Bool)
    (walk : FsPath → Deleted → Session FsReply Deleted) (cur : FsPath) (acc : Deleted)
    (name : Name) : Session FsReply Deleted :=
  match FsPath.stripPrefix (cur.join name) root with
  | none => pure acc
  | some rel => do
    let info ← Fs.symlinkMetadata (cur.join name)
    if isKept kept rel then
      if info.toOption.any Metadata.isDir then walk (cur.join name) acc else pure acc
    else
      removeEntry dryRun (cur.join name) info.toOption
      pure (countRemoved acc info.toOption)

/-- Go through the directory `cur`, as long as the stack has room. -/
def deleteWalk (root : FsPath) (kept : List FsPath) (dryRun : Bool) :
    ℕ → FsPath → Deleted → Session FsReply Deleted
  | 0, _, _ => throw (.panic "stack overflow")
  | n + 1, cur, acc => do
    match ← Fs.readDir cur with
    | .error _ => pure acc
    | .ok names =>
      Proc.forEach (deleteEntry root kept dryRun (deleteWalk root kept dryRun n) cur) acc names

/-- Remove what is at the destination and not in the list. -/
def deleteExtraneousFromFlist (flist : FileList) (destDir : FsPath) (dryRun : Bool)
    (stack : ℕ) : Session FsReply Deleted :=
  deleteWalk destDir (keptPaths flist) dryRun stack destDir {}

end Receiver
