import RsyncRs.Fs.Temporary
import RsyncRs.Local.Effects
import RsyncRs.Local.Transfer

/-!
# The order of a local transfer

Whatever the sources are, a local transfer copies one entry after the other. In between it makes
directories, sets their metadata and removes empty ones. What all these keep is kept by the
transfer.
-/

namespace Local

open Disk

variable {m : Watch UInt8 FsReply Error (Endpoint Disk UInt8)} {closed : Bool} {c : Copying}
  {J : LocalState → Disk → Prop} {E : Disk → Prop}

/-- If the metadata are those of a regular file, then the path names the file with their
number. -/
def Describes (d : Disk) (p : FsPath) (info : Metadata) : Prop :=
  info.isFile = true → ∃ l data, d.lplace p = some l ∧ l ≠ [] ∧ d.nodes l = some info.ino ∧
    (d.inodes info.ino).kind = .file data

theorem describes_of_stat
    {d : Disk} {p : FsPath} {info : Metadata} (h : d.stat (d.lplace p) = .ok info) :
  Describes d p info
  := by
  intro hfile
  obtain ⟨l, inode, hl, hinode, rfl⟩ := stat_eq_ok h
  obtain ⟨data, hkind⟩ := isFile_metadataAt hfile
  have hroot : l ≠ [] := by
    rintro rfl
    cases hinode
    cases hkind
  obtain ⟨i, hi, rfl⟩ := nodes_of_inode? hroot hinode
  have hino : (d.metadataAt l (d.inodes i)).ino = i := by
    rw [metadataAt, hi, Option.getD_some]
  rw [hino]
  exact ⟨l, data, hl, hroot, hi, hkind⟩

theorem stable_describes
    (p : FsPath) (info : Metadata) :
  Stable (Describes · p info)
  := by
  apply Stable.of_grows
  intro d d' hd hgrows hfile
  obtain ⟨l, data, hl, hroot, hi, hkind⟩ := hd hfile
  exact ⟨l, data, hgrows.lplace_eq hl, hroot, hgrows.nodes l _ hi,
    (hgrows.kinds _ (d.used l _ hi)).trans hkind⟩

/-- What is kept by the copying of an entry and by all that happens in between. -/
structure Carried (m : Watch UInt8 FsReply Error (Endpoint Disk UInt8)) (closed : Bool)
    (c : Copying) (J : LocalState → Disk → Prop) (E : Disk → Prop) : Prop where
  stable : ∀ st, Stable (J st)
  keep : ∀ st rel d, J st d → J (st.keep rel) d
  removeDir : ∀ st p d d', J st d → d.removeDir p = some d' → J st d'
  error : ∀ st d, J st d → E d
  entry : ∀ src dest rel info st,
    Moves m closed (fun d => J st d ∧ Describes d src info)
      (copyEntry c.env c.opts src dest rel info st) J E

namespace Carried

variable (h : Carried m closed c J E)

include h

theorem moves_createDirAll
    (path : FsPath) (st : LocalState) :
  Moves m closed (J st) (unlessDry c.opts (Fs.orFail (Fs.createDirAll path))) (fun _ => J st) E
  := by
  unfold unlessDry
  split
  · exact Moves.pure fun _ hd => hd
  · exact Moves.orFail (Moves.createDirAll (h.stable st)) (fun _ _ hd => hd) fun _ => h.error st

theorem moves_removeDir
    (path : FsPath) (st : LocalState) :
  Moves m closed (J st) (unlessDry c.opts (Fs.orIgnore (Fs.removeDir path))) (fun _ => J st) E
  := by
  unfold unlessDry
  split
  · exact Moves.pure fun _ hd => hd
  · apply Moves.orIgnore
    apply Moves.removeDir
    · exact fun d d' hd hremove => (h.stable st).tick d' (h.removeDir st path d d' hd hremove)
    · exact fun d _ hd => (h.stable st).tick d hd

/-- What is known of a file is asked for. -/
theorem moves_describe
    (path : FsPath) (st : LocalState) :
  Moves m closed (J st) (Fs.orFail (Fs.symlinkMetadata path))
    (fun info d => J st d ∧ Describes d path info) E
  := by
  apply Moves.orFail (R := fun r d => J st d ∧ ∀ info, r = .ok info → Describes d path info)
  · exact Moves.symlinkMetadata fun d hd => ⟨hd, fun _ => describes_of_stat⟩
  · exact fun info _ hd => ⟨hd.1, hd.2 info rfl⟩
  · exact fun _ d hd => h.error st d hd.1

/-! ### Directories -/

theorem moves_copySubdir
    {copyDir : CopyDir} (hcopy : ∀ src dest rel st,
      Moves m closed (J st) (copyDir src dest rel st) (fun r => J r.2) E)
    (src dest rel : FsPath) (info : Metadata) (acc : ℕ × LocalState) :
  Moves m closed (J acc.2) (copySubdir c copyDir src dest rel info acc) (fun r => J r.2) E
  := by
  apply (h.moves_createDirAll dest acc.2).bind
  intro _
  apply (hcopy src dest rel acc.2).bind
  intro sub
  split
  · apply (h.moves_removeDir dest sub.2).bind
    intro _
    exact Moves.pure fun _ hd => hd
  · apply (moves_applyDirMeta (h.stable sub.2) c.opts dest info).bind
    intro _
    exact Moves.pure fun d hd => h.keep sub.2 _ d hd

theorem moves_copyChild
    {copyDir : CopyDir} (hcopy : ∀ src dest rel st,
      Moves m closed (J st) (copyDir src dest rel st) (fun r => J r.2) E)
    (srcDir destDir pre : FsPath) (acc : ℕ × LocalState) (name : Name) :
  Moves m closed (J acc.2) (copyChild c copyDir srcDir destDir pre acc name) (fun r => J r.2) E
  := by
  apply (h.moves_describe (srcDir.join name) acc.2).bind
  intro info
  split
  · exact Moves.pure fun _ hd => hd.1
  split
  · apply (h.moves_copySubdir hcopy _ _ _ info acc).consequence
    · exact fun _ hd => hd.1
    · exact fun _ _ hd => hd
    · exact fun _ hd => hd
  split
  · exact Moves.pure fun _ hd => hd.1
  apply Moves.bind
  · apply (h.entry _ _ _ info _).consequence
    · exact fun d hd => ⟨h.keep acc.2 _ d hd.1, hd.2⟩
    · exact fun _ _ hd => hd
    · exact fun _ hd => hd
  intro st
  exact Moves.pure fun _ hd => hd

theorem moves_finishDir
    (srcDir destDir : FsPath) (acc : ℕ × LocalState) :
  Moves m closed (J acc.2) (finishDir c srcDir destDir acc) (fun r => J r.2) E
  := by
  unfold finishDir
  split
  · exact Moves.pure fun _ hd => hd
  apply Moves.bind (Q := fun _ => J acc.2)
  · apply Moves.orFail (R := fun _ => J acc.2)
    · exact Moves.symlinkMetadata fun _ hd => hd
    · exact fun _ _ hd => hd
    · exact fun _ => h.error acc.2
  intro info
  apply (moves_applyDirMeta (h.stable acc.2) c.opts destDir info).bind
  intro _
  exact Moves.pure fun _ hd => hd

/-- A directory is copied, however many calls the stack has room for. -/
theorem moves_copyDirRecursive
    (n : ℕ) (srcDir destDir pre : FsPath) (st : LocalState) :
  Moves m closed (J st) (copyDirRecursive c n srcDir destDir pre st) (fun r => J r.2) E
  := by
  induction n generalizing srcDir destDir pre st with
  | zero => exact Moves.throw (h.error st)
  | succ n ih =>
      apply Moves.bind (Q := fun _ => J st)
      · apply Moves.orFail (Moves.readDir (h.stable st))
        · exact fun _ _ hd => hd
        · exact fun _ => h.error st
      intro names
      have hchildren := Moves.forEach (h.moves_copyChild ih srcDir destDir pre) (0, st) names
      apply hchildren.bind
      intro acc
      exact h.moves_finishDir srcDir destDir acc

/-! ### Sources -/

theorem moves_copySourceDir
    (src destRoot : FsPath) (isDir : Bool) (st : LocalState) :
  Moves m closed (J st) (copySourceDir c src destRoot isDir st) J E
  := by
  apply Moves.bind (Q := fun _ => J st)
  · unfold copyInto
    split
    · exact Moves.pure fun _ hd => hd
    · split
      · exact Moves.pure fun _ hd => hd
      · exact Moves.throw (h.error st)
  intro into
  apply (h.moves_createDirAll into st).bind
  intro _
  apply (h.moves_copyDirRecursive _ src into [] st).bind
  intro sub
  split
  · apply (h.moves_removeDir into sub.2).bind
    intro _
    exact Moves.pure fun _ hd => hd
  · split
    · exact Moves.pure fun d hd => h.keep sub.2 _ d hd
    · exact Moves.pure fun _ hd => hd

theorem moves_copySourceFile
    (src destRoot : FsPath) (isDir : Bool) (info : Metadata) (st : LocalState) :
  Moves m closed (fun d => J st d ∧ Describes d src info)
    (copySourceFile c src destRoot isDir info st) J E
  := by
  unfold copySourceFile
  split
  · exact Moves.throw fun d hd => h.error st d hd.1
  · apply (h.entry _ _ _ info st).bind
    intro st'
    split
    · exact Moves.pure fun d hd => h.keep st' _ d hd
    · exact Moves.pure fun _ hd => hd

theorem moves_copyOne
    (destRoot : FsPath) (isDir : Bool) (st : LocalState) (src : FsPath) :
  Moves m closed (J st) (copyOne c destRoot isDir st src) J E
  := by
  apply (h.moves_describe src st).bind
  intro info
  split
  · split
    · apply (h.moves_copySourceDir src destRoot isDir st).consequence
      · exact fun _ hd => hd.1
      · exact fun _ _ hd => hd
      · exact fun _ hd => hd
    · exact Moves.pure fun _ hd => hd.1
  split
  · exact Moves.pure fun _ hd => hd.1
  · exact h.moves_copySourceFile src destRoot isDir info st

/-! ### Lists of files -/

theorem moves_copyListedDir
    (base destRoot rel : FsPath) (st : LocalState) :
  Moves m closed (J st) (copyListedDir c base destRoot rel st) J E
  := by
  apply (h.moves_createDirAll (destRoot.join rel) st).bind
  intro _
  split
  · apply (h.moves_copyDirRecursive _ _ _ rel st).bind
    intro sub
    split
    · apply (h.moves_removeDir _ sub.2).bind
      intro _
      exact Moves.pure fun _ hd => hd
    · exact Moves.pure fun d hd => h.keep sub.2 _ d hd
  · exact Moves.pure fun d hd => h.keep st _ d hd

theorem moves_copyListed
    (base destRoot : FsPath) (st : LocalState) (line : Str) :
  Moves m closed (J st) (copyListed c base destRoot st line) J E
  := by
  unfold copyListed
  split
  · exact Moves.pure fun _ hd => hd
  next rel _ =>
  apply Moves.bind (Q := fun r d => J st d ∧
    ∀ info, r = .ok info → Describes d (base.join rel) info)
  · exact Moves.symlinkMetadata fun d hd => ⟨hd, fun _ => describes_of_stat⟩
  intro r
  cases r with
  | error msg => exact Moves.pure fun _ hd => hd.1
  | ok info =>
      dsimp only
      split
      · apply (h.moves_copyListedDir base destRoot rel st).consequence
        · exact fun _ hd => hd.1
        · exact fun _ _ hd => hd
        · exact fun _ hd => hd
      split
      · exact Moves.pure fun _ hd => hd.1
      apply Moves.bind (Q := fun _ d => J st d ∧ Describes d (base.join rel) info)
      · have hstable := (h.stable st).and (stable_describes (base.join rel) info)
        unfold unlessDry
        split
        · exact Moves.pure fun _ hd => ⟨hd.1, hd.2 info rfl⟩
        · apply (moves_createParent hstable (fun d hd => h.error st d hd.1) _).consequence
          · exact fun _ hd => ⟨hd.1, hd.2 info rfl⟩
          · exact fun _ _ hd => hd
          · exact fun _ hd => hd
      intro _
      apply (h.entry _ _ _ info st).bind
      intro st'
      exact Moves.pure fun d hd => h.keep st' _ d hd

theorem moves_copyFromFilesFrom
    (base list destRoot : FsPath) (st : LocalState) :
  Moves m closed (J st) (copyFromFilesFrom c base list destRoot st) J E
  := by
  apply Moves.bind (Q := fun _ => J st)
  · apply Moves.orFail (Moves.readFile (h.stable st))
    · exact fun _ _ hd => hd
    · exact fun _ => h.error st
  intro content
  split
  · exact Moves.throw (h.error st)
  · exact Moves.forEach (h.moves_copyListed base destRoot) st _

/-- The sources are copied. -/
theorem moves_copySources
    (sources : List FsPath) (dest : FsPath) (isDir : Bool) :
  Moves m closed (J {}) (copySources c sources dest isDir) J E
  := by
  unfold copySources
  split
  · exact h.moves_copyFromFilesFrom _ _ dest {}
  · exact Moves.forEach (h.moves_copyOne dest isDir) {} sources

end Carried

theorem moves_destIsDir
    {J E : Disk → Prop} (sources : List FsPath) (dest : FsPath) :
  Moves m closed J (destIsDir sources dest) (fun _ => J) E
  := by
  unfold destIsDir
  split
  · exact Moves.pure fun _ hd => hd
  · apply Moves.bind (Q := fun _ => J)
    · exact Moves.metadata fun _ hd => hd
    intro r
    cases r with
    | ok info => exact Moves.pure fun _ hd => hd
    | error msg => exact Moves.pure fun _ hd => hd

/-- What each removal keeps is kept by the removal of all that was not kept. -/
theorem moves_deleteWalk
    {opts : Options} {I : Disk → Prop} (hstable : Stable I) (hE : ∀ d, I d → E d)
    (hremove : ∀ path, Moves m closed I (removeExtraneous opts path) (fun _ => I) E)
    (kept : List (List FsPath.Component)) (root : FsPath) (n : ℕ) (cur : FsPath)
    (report : LocalReport) :
  Moves m closed I (deleteWalk opts kept root n cur report) (fun _ => I) E
  := by
  induction n generalizing cur report with
  | zero => exact Moves.throw hE
  | succ n ih =>
      apply Moves.bind (Q := fun _ => I)
      · exact (Moves.readDir hstable).orFail (fun _ _ hd => hd) fun _ => hE
      intro names
      refine Moves.forEach (J := fun _ => I) (fun report name => ?_) report names
      unfold deleteEntry
      dsimp only
      split
      · apply Moves.bind (Q := fun _ => I)
        · apply Moves.orFail (R := fun _ => I)
          · exact Moves.symlinkMetadata fun _ hd => hd
          · exact fun _ _ hd => hd
          · exact fun _ => hE
        intro info
        split
        · apply ih
        · exact Moves.pure fun _ hd => hd
      · apply (hremove _).bind
        intro _
        exact Moves.pure fun _ hd => hd

/-- A local transfer. What is removed at its end is kept out of harm's way. -/
theorem Carried.moves_run
    {env : LocalEnv} {opts : Options} (h : Carried m closed (copying env opts) J E)
    (hremove : opts.delete = true → ∀ st path,
      Moves m closed (J st) (removeExtraneous opts path) (fun _ => J st) E)
    (sources : List FsPath) (dest : FsPath) :
  Moves m closed (J {}) (runLocal env opts sources dest) (fun _ d => ∃ st, J st d) E
  := by
  apply (moves_destIsDir sources dest).bind
  intro isDir
  have hrest : Moves m closed (J {}) (do
      let st ← copySources (copying env opts) sources dest isDir
      if opts.delete && isDir then deleteWalk opts st.kept dest env.stack dest st.report
      else pure st.report) (fun _ d => ∃ st, J st d) E := by
    apply (h.moves_copySources sources dest isDir).bind
    intro st
    split
    · next hdelete =>
      rw [Bool.and_eq_true] at hdelete
      have hwalk := hremove hdelete.1 st
      apply (moves_deleteWalk (h.stable st) (h.error st) hwalk _ _ _ _ _).consequence
        (fun _ hd => hd)
      · exact fun _ _ hd => ⟨st, hd⟩
      · exact fun _ hd => hd
    · exact Moves.pure fun _ hd => ⟨st, hd⟩
  dsimp only
  split
  · apply (h.moves_createDirAll dest {}).bind
    exact fun _ => hrest
  · exact hrest

/-- A local transfer that removes nothing at its end. -/
theorem Carried.moves_runLocal
    {env : LocalEnv} {opts : Options} (h : Carried m closed (copying env opts) J E)
    (hdelete : opts.delete = false) (sources : List FsPath) (dest : FsPath) :
  Moves m closed (J {}) (runLocal env opts sources dest) (fun _ d => ∃ st, J st d) E
  := by
  apply h.moves_run
  intro htrue
  cases hdelete.symm.trans htrue

end Local
