import RsyncRs.Pipeline.Receiver
import RsyncRs.Program.Talk

/-!
# Copies without a sender

What a receiver does at its destination, when the content of the files is at hand: it asks nobody
but its host. This is what a session with a sender is for.
-/

namespace Receiver

/-- Put a file with the content `data` in its place. What is there is read before. -/
def copyContent (args : ReceiverArgs) (stats : Stats) (fi : FileInfo) (destPath : FsPath)
    (data : List UInt8) : Session FsReply Stats := do
  let _ ← Fs.readFile destPath
  install args fi destPath data
  pure (installed stats data)

/-- Copy a file unless it can be skipped or linked. -/
def copyRegular (args : ReceiverArgs) (stats : Stats) (fi : FileInfo) (destPath : FsPath)
    (data : List UInt8) : Session FsReply Stats := do
  if ← existsAlready args destPath then
    pure stats
  else if ← destNewer args fi destPath then
    pure stats
  else if ← linkFirst args fi destPath args.linkDest then
    pure { stats with xferredFiles := wrapI64 (stats.xferredFiles + 1) }
  else if ← needsTransfer args fi destPath then
    copyContent args stats fi destPath data
  else
    pure stats

/-- Copy the `i`-th file of the list if it is a regular one. Its content is `source i`. -/
def copyEntry (args : ReceiverArgs) (source : ℕ → List UInt8) (stats : Stats)
    (entry : FileInfo × ℕ) : Session FsReply Stats :=
  if mayRequest args entry.1 then
    copyRegular args stats entry.1 (args.destDir.join entry.1.path) (source entry.2)
  else
    pure stats

/-- Make the links of the list. -/
def makeLinks (args : ReceiverArgs) : Session FsReply Unit := do
  Proc.forEach (makeSymlink args) () args.flist.files
  Proc.forEach (makeHardLink args) () args.flist.files

/-- Copy the files of the list. -/
def copyAll (args : ReceiverArgs) (source : ℕ → List UInt8) (stats : Stats) :
    Session FsReply Stats := do
  Proc.forEach (makeDir args) () args.flist.files
  let stats ← Proc.forEach (copyEntry args source) stats args.flist.files.zipIdx
  makeLinks args
  pure stats

/-! ### Only the host is asked -/

theorem onlyHosts_orFail
    {α : Type} {p : Session FsReply (Except String α)} (hp : Proc.OnlyHosts p) :
  Proc.OnlyHosts (Fs.orFail p)
  := by
  apply hp.bind
  intro r
  cases r with
  | ok a => exact Proc.onlyHosts_pure a
  | error msg => exact Proc.onlyHosts_throw _

theorem onlyHosts_orIgnore
    {α : Type} {p : Session FsReply (Except String α)} (hp : Proc.OnlyHosts p) :
  Proc.OnlyHosts (Fs.orIgnore p)
  := hp.bind fun _ => Proc.onlyHosts_pure _

theorem onlyHosts_createParent
    (path : FsPath) :
  Proc.OnlyHosts (createParent path)
  := by
  unfold createParent
  split
  · exact onlyHosts_orIgnore (Proc.onlyHosts_host _)
  · exact Proc.onlyHosts_pure _

theorem onlyHosts_linkTo
    (ldPath destPath : FsPath) :
  Proc.OnlyHosts (linkTo ldPath destPath)
  := by
  apply (onlyHosts_createParent destPath).bind
  intro _
  apply (onlyHosts_orIgnore (Proc.onlyHosts_host _)).bind
  intro _
  apply (Proc.onlyHosts_host _).bind
  intro r
  cases r with
  | error msg => exact Proc.onlyHosts_pure _
  | ok _ =>
      apply (Proc.onlyHosts_host _).bind
      intro r
      cases r with
      | ok _ => exact Proc.onlyHosts_pure _
      | error msg =>
          exact (onlyHosts_orIgnore (Proc.onlyHosts_host _)).bind fun _ => Proc.onlyHosts_pure _

theorem onlyHosts_linkFirst
    (args : ReceiverArgs) (fi : FileInfo) (dest : FsPath) (lds : List FsPath) :
  Proc.OnlyHosts (linkFirst args fi dest lds)
  := by
  induction lds with
  | nil => exact Proc.onlyHosts_pure _
  | cons ld lds ih =>
      apply (Proc.onlyHosts_host _).bind
      intro r
      cases r with
      | error msg => exact ih
      | ok m =>
          dsimp only
          split
          · apply (onlyHosts_linkTo _ dest).bind
            intro b
            cases b with
            | true => exact Proc.onlyHosts_pure _
            | false => exact ih
          · exact ih

theorem onlyHosts_existsAlready
    (args : ReceiverArgs) (dest : FsPath) :
  Proc.OnlyHosts (existsAlready args dest)
  := by
  unfold existsAlready
  split
  · exact Proc.onlyHosts_host _
  · exact Proc.onlyHosts_pure _

theorem onlyHosts_destNewer
    (args : ReceiverArgs) (fi : FileInfo) (dest : FsPath) :
  Proc.OnlyHosts (destNewer args fi dest)
  := by
  unfold destNewer
  split
  · apply (Proc.onlyHosts_host _).bind
    intro b
    split
    · apply (Proc.onlyHosts_host _).bind
      intro r
      cases r with
      | ok m => exact Proc.onlyHosts_pure _
      | error msg => exact Proc.onlyHosts_pure _
    · exact Proc.onlyHosts_pure _
  · exact Proc.onlyHosts_pure _

theorem onlyHosts_needsTransfer
    (args : ReceiverArgs) (fi : FileInfo) (dest : FsPath) :
  Proc.OnlyHosts (needsTransfer args fi dest)
  := by
  unfold needsTransfer
  split
  · exact Proc.onlyHosts_pure _
  · apply (Proc.onlyHosts_host _).bind
    intro r
    cases r with
    | ok m => exact Proc.onlyHosts_pure _
    | error msg => exact Proc.onlyHosts_pure _

theorem onlyHosts_writeContent
    (args : ReceiverArgs) (dest : FsPath) (data : List UInt8) :
  Proc.OnlyHosts (writeContent args dest data)
  := by
  unfold writeContent
  split
  · exact (onlyHosts_orFail (Proc.onlyHosts_host _)).bind fun _ =>
      onlyHosts_orFail (Proc.onlyHosts_host _)
  · apply (onlyHosts_orFail (Proc.onlyHosts_host _)).bind
    intro _
    exact (onlyHosts_orFail (Proc.onlyHosts_host _)).bind fun _ =>
      onlyHosts_orFail (Proc.onlyHosts_host _)

theorem onlyHosts_install
    (args : ReceiverArgs) (fi : FileInfo) (dest : FsPath) (data : List UInt8) :
  Proc.OnlyHosts (install args fi dest data)
  := by
  apply (onlyHosts_createParent dest).bind
  intro _
  apply (Proc.onlyHosts_host _).bind
  intro _
  apply (onlyHosts_writeContent args dest data).bind
  intro _
  exact (onlyHosts_orFail (Proc.onlyHosts_host _)).bind fun _ =>
    onlyHosts_orFail (Proc.onlyHosts_host _)

theorem onlyHosts_copyContent
    (args : ReceiverArgs) (stats : Stats) (fi : FileInfo) (dest : FsPath) (data : List UInt8) :
  Proc.OnlyHosts (copyContent args stats fi dest data)
  := by
  apply (Proc.onlyHosts_host _).bind
  intro _
  exact (onlyHosts_install args fi dest data).bind fun _ => Proc.onlyHosts_pure _

theorem onlyHosts_copyRegular
    (args : ReceiverArgs) (stats : Stats) (fi : FileInfo) (dest : FsPath) (data : List UInt8) :
  Proc.OnlyHosts (copyRegular args stats fi dest data)
  := by
  apply (onlyHosts_existsAlready args dest).bind
  intro b
  split
  · exact Proc.onlyHosts_pure _
  apply (onlyHosts_destNewer args fi dest).bind
  intro b
  split
  · exact Proc.onlyHosts_pure _
  apply (onlyHosts_linkFirst args fi dest _).bind
  intro b
  split
  · exact Proc.onlyHosts_pure _
  apply (onlyHosts_needsTransfer args fi dest).bind
  intro b
  split
  · exact onlyHosts_copyContent args stats fi dest data
  · exact Proc.onlyHosts_pure _

theorem onlyHosts_copyEntry
    (args : ReceiverArgs) (source : ℕ → List UInt8) (stats : Stats) (entry : FileInfo × ℕ) :
  Proc.OnlyHosts (copyEntry args source stats entry)
  := by
  unfold copyEntry
  split
  · exact onlyHosts_copyRegular args stats _ _ _
  · exact Proc.onlyHosts_pure _

theorem onlyHosts_makeDir
    (args : ReceiverArgs) (u : Unit) (fi : FileInfo) :
  Proc.OnlyHosts (makeDir args u fi)
  := by
  unfold makeDir
  split
  · exact onlyHosts_orIgnore (Proc.onlyHosts_host _)
  · exact Proc.onlyHosts_pure _

theorem onlyHosts_makeLinks
    (args : ReceiverArgs) :
  Proc.OnlyHosts (makeLinks args)
  := by
  have hsymlink : ∀ u fi, Proc.OnlyHosts (makeSymlink args u fi) := by
    intro u fi
    unfold makeSymlink
    split
    · exact (onlyHosts_orIgnore (Proc.onlyHosts_host _)).bind fun _ =>
        onlyHosts_orIgnore (Proc.onlyHosts_host _)
    · exact Proc.onlyHosts_pure _
  have hlink : ∀ u fi, Proc.OnlyHosts (makeHardLink args u fi) := by
    intro u fi
    unfold makeHardLink
    split
    · exact Proc.onlyHosts_pure _
    · apply (onlyHosts_createParent _).bind
      intro _
      apply (onlyHosts_orIgnore (Proc.onlyHosts_host _)).bind
      intro _
      apply (Proc.onlyHosts_host _).bind
      intro r
      cases r with
      | ok _ => exact Proc.onlyHosts_pure _
      | error msg => exact onlyHosts_orIgnore (Proc.onlyHosts_host _)
  exact (Proc.onlyHosts_forEach hsymlink _ _).bind fun _ => Proc.onlyHosts_forEach hlink _ _

theorem onlyHosts_copyAll
    (args : ReceiverArgs) (source : ℕ → List UInt8) (stats : Stats) :
  Proc.OnlyHosts (copyAll args source stats)
  := by
  apply (Proc.onlyHosts_forEach (onlyHosts_makeDir args) _ _).bind
  intro _
  apply (Proc.onlyHosts_forEach (onlyHosts_copyEntry args source) _ _).bind
  intro stats
  exact (onlyHosts_makeLinks args).bind fun _ => Proc.onlyHosts_pure stats

end Receiver
