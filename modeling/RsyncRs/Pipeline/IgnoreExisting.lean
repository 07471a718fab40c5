import RsyncRs.Delta.StoredFlate
import RsyncRs.Local.Existing
import RsyncRs.Pipeline.Existing

/-!
# What ignoring existing files keeps

With the option to ignore the files that exist at the destination, a run in which the copies and
the links are made where they spare those files keeps all of them. A link is put in the place of
such a file without a look.
-/

open Disk

variable {F : Flate} {dig : Digests} {w : Endpoint Disk UInt8}

/-- However the procedure comes to an end, the regular files that were below the path are at their
places, with the same content. -/
def KeepsFiles {α : Type} (closed : Bool) (p : Session FsReply α) (root : FsPath)
    (w : Endpoint Disk UInt8) : Prop :=
  ∀ r w', Prog.Ends (Prog.Answers (Endpoint.answer Disk.answer closed)) p.run w r w' →
    Kept (w.host.filesBelow root) w.host w'.host

/-- Every part of a local transfer is started where it spares the files below the destination. -/
def SparesLocally (closed : Bool) (env : LocalEnv) (opts : Options) (sources : List FsPath)
    (root : FsPath) (w : Endpoint Disk UInt8) : Prop :=
  Proc.Meets (Local.spares (w.host.filesBelow root))
    (Prog.Answers (Endpoint.answer Disk.answer closed)) (Local.runLocal env opts sources root) w

/-- Every part of a session is started where it spares the files below the destination. -/
def SparesReceiving (closed : Bool) (dig : Digests) (F : Flate) (args : ReceiverArgs)
    (s : Receiver) (w : Endpoint Disk UInt8) : Prop :=
  Proc.Meets (Receiver.spares dig F (w.host.filesBelow args.destDir))
    (Prog.Answers (Endpoint.answer Disk.answer closed)) (Receiver.run dig F args s) w

/-- A local transfer and a receiver that ignore existing files keep them in every run whose parts
are started where they spare them. -/
theorem ignored_files_kept
    (closed : Bool) (dig : Digests) (F : Flate) (w : Endpoint Disk UInt8) :
  (∀ env opts sources root, opts.ignoreExisting = true → opts.delete = false →
    SparesLocally closed env opts sources root w →
      KeepsFiles closed (Local.runLocal env opts sources root) root w) ∧
  (∀ args s, args.ignoreExisting = true → SparesReceiving closed dig F args s w →
    KeepsFiles closed (Receiver.run dig F args s) args.destDir w)
  := by
  constructor
  · intro env opts sources root hignore hdelete hmeets r w' hr
    have hend := Local.moves_runLocal hignore hdelete (files_filesBelow w.host root) sources root w
      (Kept.refl _ w.host) hmeets r w' hr
    cases r with
    | ok _ => exact hend
    | error _ => exact hend
  · intro args s hignore hmeets r w' hr
    have hend := Receiver.moves_run hignore (files_filesBelow w.host args.destDir) s w
      (Kept.refl _ w.host) hmeets r w' hr
    cases r with
    | ok _ => exact hend
    | error _ => exact hend

/-! ### Runs that only ask -/

/-- The file system is asked only whether something is at paths where something is. -/
def testsPresent (w : Endpoint Disk UInt8) : Act UInt8 FsCall → Bool
  | .host (.pathExists p) => ((w.host.place p).bind w.host.inode?).isSome
  | .host _ => false
  | _ => true

/-- The program has come to its end. -/
def Prog.ended {C : Type} {R : C → Type} {α : Type} : Prog R α → Bool
  | .ret _ => true
  | _ => false

/-- The program asks what is at a path where something is, or whether something is there, and ends
because it is. -/
def asksPresent {α : Type} : Prog (Answer (B := UInt8) FsReply) α → Endpoint Disk UInt8 → Bool
  | .call (.host (.pathExists p)) k, w =>
    ((w.host.place p).bind w.host.inode?).isSome && (k true).ended && !(k false).ended
  | .call (.host (.metadata p)) _, w | .call (.host (.symlinkMetadata p)) _, w =>
    ((w.host.place p).bind w.host.inode?).isSome
  | .call (.host _) _, _ => false
  | _, _ => true

section

variable {S : Set Location} {act : Endpoint Disk UInt8 → (c : Act UInt8 FsCall) →
  Answer FsReply c → Endpoint Disk UInt8 → Prop}

/-- A receiver that only looks for what is there spares every file. -/
theorem Receiver.Part.spares_of_safe
    (i : Receiver.Part) {Q : Except Error i.Result → Endpoint Disk UInt8 → Prop}
    (h : Prog.Safe act (fun w c => testsPresent w c = true) (i.proc dig F).run Q w) :
  i.Spares S w.host
  := by
  cases i with
  | receiveRegular args s i fi dest =>
      intro hignore
      left
      have hfirst := Prog.Safe.of_bind h
      rw [existsAlready, if_pos hignore] at hfirst
      exact hfirst.1
  | makeSymlink args fi =>
      intro hlink
      have hrun : Prog.Safe act (fun w c => testsPresent w c = true)
          (Receiver.makeSymlink args () fi).run Q w := h
      rw [Receiver.makeSymlink, if_pos hlink] at hrun
      have hremove := Prog.Safe.of_bind (Prog.Safe.of_bind hrun)
      exact absurd hremove.1 Bool.false_ne_true
  | makeHardLink args fi =>
      intro hleader
      obtain ⟨first, hfirst⟩ := Option.isSome_iff_exists.mp hleader
      have hrun : Prog.Safe act (fun w c => testsPresent w c = true)
          (Receiver.makeHardLink args () fi).run Q w := h
      rw [Receiver.makeHardLink, hfirst] at hrun
      have hparent := Prog.Safe.of_bind hrun
      rw [Receiver.createParent] at hparent
      split at hparent
      · exact absurd (Prog.Safe.of_bind hparent).1 Bool.false_ne_true
      · have hremove := Prog.Safe.of_bind (Prog.Safe.of_bind hparent)
        exact absurd hremove.1 Bool.false_ne_true

/-- A part of a local transfer that only asks about what is there spares every file. -/
theorem Local.Part.spares_of_asksPresent
    {α : Type} (i : Local.Part) {k : Except Error i.Result → Prog (Answer (B := UInt8) FsReply) α}
    (h : asksPresent (i.proc.run >>= k) w = true) :
  i.Spares S w.host
  := by
  cases i with
  | linkToFirst opts first dest =>
      left
      apply Classical.byContradiction
      intro hdry
      have hrun : asksPresent ((Local.linkToFirst opts first dest).run >>= k) w = true := h
      rw [Local.linkToFirst, if_neg hdry, Local.createParent] at hrun
      split at hrun
      · split at hrun
        · cases hrun
        · cases hrun
      · cases hrun
  | copyUnlinked env opts src dest rel info st =>
      right
      left
      exact h
  | transferEntry env opts src dest info st =>
      intro hbackup
      have hrun :
          asksPresent ((Local.transferEntry env opts src dest info st).run >>= k) w = true := h
      rw [Local.transferEntry, Local.backup, if_pos hbackup, Local.backupFile] at hrun
      obtain ⟨hsome, hfalse⟩ := Bool.and_eq_true_iff.mp hrun
      have htrue := (Bool.and_eq_true_iff.mp hsome).2
      -- the copy and the renaming of what is there are no end, and without them both answers
      -- have the same end
      split at htrue
      · rw [Local.createParent] at htrue
        split at htrue
        · split at htrue
          · cases htrue
          · cases htrue
        · cases htrue
      · next hdir =>
        split at htrue
        · next hsame =>
          rw [Bool.not_eq_true', ← Bool.not_eq_true] at hfalse
          exact absurd htrue hfalse
        · cases htrue

end

/-! ### A directory with a file -/

/-- A file to be copied, and a directory with a larger file. -/
def existingFile : Endpoint Disk UInt8 where
  host := ((Disk.blank.create [[115]] { kind := .file [2] }).create [[100]]
    { kind := .dir }).create [[100], [98]] { kind := .file [1, 1] }
  input := [0, 0, 0]
  buffer := []
  sent := []

/-- A session whose list has one entry, with the name of the file. -/
def receiveEntry (mode : ℕ) : ReceiverArgs where
  flist := { files := [{ name := [98], mode, linkTarget := some [97], hardLinkFirstNdx := -1 }] }
  destDir := [sep, 100]
  csumType := .md4
  protocol := 31
  checksumSeed := 0
  ignoreExisting := true

theorem sparesLocally_existingFile :
  SparesLocally true {} { ignoreExisting := true } [[sep, 115]] [sep, 100, sep, 98] existingFile
  := by
  have hasks : Prog.holdsAlong asksPresent (Endpoint.answer Disk.answer true) 20
      (Local.runLocal {} { ignoreExisting := true } [[sep, 115]] [sep, 100, sep, 98]).run
        existingFile = true := by
    decide +kernel
  rintro i w₁ ⟨k, hreaches⟩
  exact i.spares_of_asksPresent (Prog.Reaches.of_holdsAlong hasks hreaches)

theorem sparesReceiving_existingFile :
  SparesReceiving true digestsOfZeros StoredFlate.codec (receiveEntry 0o100644) {} existingFile
  := by
  have hsome : (Prog.eval (Prog.onlyIf testsPresent (Endpoint.answer Disk.answer true)) 5
      (Receiver.run digestsOfZeros StoredFlate.codec (receiveEntry 0o100644) {}).run
        existingFile).isSome := by
    decide +kernel
  obtain ⟨⟨r, w'⟩, heval⟩ := Option.isSome_iff_exists.mp hsome
  intro i w₁ hv
  obtain ⟨Q, hsafe⟩ := hv.safe (Prog.safe_of_ends_onlyIf (Prog.ends_of_eval heval))
  exact i.spares_of_safe hsafe

theorem ignored_files_kept_existingFile :
  KeepsFiles true (Local.runLocal {} { ignoreExisting := true } [[sep, 115]] [sep, 100, sep, 98])
    [sep, 100, sep, 98] existingFile ∧
  KeepsFiles true (Receiver.run digestsOfZeros StoredFlate.codec (receiveEntry 0o100644) {})
    [sep, 100] existingFile
  := by
  obtain ⟨hlocal, hreceiver⟩ :=
    ignored_files_kept true digestsOfZeros StoredFlate.codec existingFile
  constructor
  · exact hlocal {} { ignoreExisting := true } [[sep, 115]] [sep, 100, sep, 98] rfl rfl
      sparesLocally_existingFile
  · exact hreceiver (receiveEntry 0o100644) {} rfl sparesReceiving_existingFile

/-- Two names of a file to be copied, and a file at each of their destinations. -/
def twoNames : Endpoint Disk UInt8 where
  host := ((((Disk.blank.create [[97]] { kind := .file [2] }).link [[98]] 0 (by decide)).create
    [[100]] { kind := .dir }).create [[100], [97]] { kind := .file [1] }).create [[100], [98]]
      { kind := .file [3] }
  input := []
  buffer := []
  sent := []

/-- The second name of a file is linked to the first, and a symbolic link is made, where a file
exists. -/
theorem not_ignored_files_kept :
  (¬ ∀ (closed : Bool) (env : LocalEnv) (opts : Options) (sources : List FsPath) (root : FsPath)
    (w : Endpoint Disk UInt8), opts.ignoreExisting = true → opts.delete = false →
    KeepsFiles closed (Local.runLocal env opts sources root) root w) ∧
  ¬ ∀ (closed : Bool) (dig : Digests) (F : Flate) (args : ReceiverArgs) (s : Receiver)
    (w : Endpoint Disk UInt8), args.ignoreExisting = true →
    KeepsFiles closed (Receiver.run dig F args s) args.destDir w
  := by
  constructor
  · intro h
    have hlinked : (Prog.eval (Endpoint.answer Disk.answer true) 5 (Local.runLocal {}
        { ignoreExisting := true, hardLinks := true } [[sep, 97], [sep, 98]] [sep, 100]).run
          twoNames).map (fun x => x.2.host.nodes [[100], [98]]) = some (some 2) := by
      decide +kernel
    obtain ⟨⟨r, w'⟩, heval, hlinked⟩ := Option.map_eq_some_iff.mp hlinked
    have hfile : [[100], [98]] ∈ twoNames.host.filesBelow [sep, 100] := by
      refine ⟨⟨{ kind := .file [3] }, [3], ?_, rfl⟩, [[100]], ?_, [[98]], rfl⟩
      · decide +kernel
      · decide +kernel
    have hkept := h true {} { ignoreExisting := true, hardLinks := true } [[sep, 97], [sep, 98]]
      [sep, 100] twoNames rfl rfl r w' (Prog.ends_of_eval heval) [[100], [98]] hfile 3 rfl
    cases hkept.1.symm.trans hlinked
  · intro h
    have hlinked : (Prog.eval (Endpoint.answer Disk.answer true) 5 (Receiver.run digestsOfZeros
        StoredFlate.codec (receiveEntry 0o120777) {}).run existingFile).map
          (fun x => x.2.host.nodes [[100], [98]]) = some (some 3) := by
      decide +kernel
    obtain ⟨⟨r, w'⟩, heval, hlinked⟩ := Option.map_eq_some_iff.mp hlinked
    have hfile : [[100], [98]] ∈ existingFile.host.filesBelow [sep, 100] := by
      refine ⟨⟨{ kind := .file [1, 1] }, [1, 1], ?_, rfl⟩, [[100]], ?_, [[98]], rfl⟩
      · decide +kernel
      · decide +kernel
    have hkept := h true digestsOfZeros StoredFlate.codec (receiveEntry 0o120777) {} existingFile
      rfl r w' (Prog.ends_of_eval heval) [[100], [98]] hfile 2 rfl
    cases hkept.1.symm.trans hlinked
