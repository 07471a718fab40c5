import RsyncRs.Local.Backups

/-!
# Backups of a run

A transfer keeps what the files below the destination held when each of its changes is made where
nothing is lost.
-/

namespace Local

open Disk

variable {closed : Bool} {b : Backups} {opts : Options} {env : LocalEnv}
  {src dest rel root : FsPath} {st : LocalState}

/-! ### Runs -/

theorem moves_copyUnlinked_backs :
  Moves (backs b) closed b.Safe (copyUnlinked env opts src dest rel info st) (fun _ => b.Safe)
    fun _ => True
  := by
  apply Moves.bind (Q := fun _ => b.Safe)
  · exact Moves.symlinkMetadata fun _ hd => hd
  intro destMeta
  split
  · exact Moves.pure fun _ hd => hd
  apply Moves.bind (Q := fun _ => b.Safe)
  · unfold existsAlready
    split
    · exact Moves.pathExists fun _ hd => hd
    · exact Moves.pure fun _ hd => hd
  intro found
  split
  · exact Moves.pure fun _ hd => hd
  split
  · exact Moves.pure fun _ hd => hd
  apply moves_linkFromDest_backs.bind
  intro linked
  split
  · exact Moves.pure fun _ hd => hd
  split
  · exact Moves.pure fun _ hd => hd
  apply moves_change (.transferEntry env opts src dest info st) fun _ hd => hd
  exact fun d _ l hl _ hspares => moves_transferEntry_heldAt hl hspares

theorem moves_copyEntry_backs :
  Moves (backs b) closed b.Safe (copyEntry env opts src dest rel info st) (fun _ => b.Safe)
    fun _ => True
  := by
  unfold copyEntry
  split
  · exact moves_copyUnlinked_backs
  · split
    · next first _ =>
      apply (moves_linkToFirst_backs first).bind
      intro _
      exact Moves.pure fun _ hd => hd
    · exact moves_copyUnlinked_backs

/-- What the files held is carried through all that is copied. -/
theorem carried_safe
    (b : Backups) (c : Copying) :
  Carried (backs b) closed c (fun _ => b.Safe) fun _ => True
  where
  stable _ := b.stable_safe
  keep _ _ _ hd := hd
  removeDir := by
    intro _ p d d' hd hremove
    obtain ⟨y, inode, -, hinode, hdir, -, -, rfl⟩ := removeDir_cases hremove
    intro l hl
    obtain ⟨x, hx, hholds, -⟩ := hd l hl
    refine ⟨x, hx, hholds.kept hl (Set.mem_singleton x) ((Kept.refl _ d).unlink_place ?_), trivial⟩
    intro hmem
    obtain ⟨i, data, hroot, hi, hdata, -⟩ := hholds.file hl
    rw [Set.mem_singleton_iff.mp hmem, inode?_of_nodes hroot hi] at hinode
    cases hinode
    cases hdir.symm.trans hdata
  error _ _ _ := trivial
  entry _ _ _ _ _ := by
    apply moves_copyEntry_backs.consequence
    · exact fun _ hd => hd.1
    · exact fun _ _ hd => hd
    · exact fun _ hd => hd

theorem moves_runLocal_backs
    (sources : List FsPath) (root : FsPath) :
  Moves (backs b) closed b.Safe (runLocal env opts sources root) (fun _ => b.Safe) fun _ => True
  := by
  apply ((carried_safe b (copying env opts)).moves_run (fun _ _ path =>
    moves_removeExtraneous_backs path) sources root).consequence (fun _ hd => hd)
  · rintro _ _ ⟨-, hd⟩
    exact hd
  · exact fun _ hd => hd

end Local

/-! ### Backups of a run -/

open Disk Local

/-- The regular files below a path, with places for their backups. -/
def Disk.backups (d : Disk) (root : FsPath) (place : Location → Location) : Backups where
  before := d
  files := d.filesBelow root
  place
  regular := d.files_filesBelow root

/-- When the transfer succeeds, what was in a regular file below the destination is at its place or
at that of its backup. -/
def KeepsBackups (closed : Bool) (env : LocalEnv) (opts : Options) (sources : List FsPath)
    (root : FsPath) (place : Location → Location) (w : Endpoint Disk UInt8) : Prop :=
  ∀ report w', Prog.Ends (Prog.Answers (Endpoint.answer Disk.answer closed))
      (runLocal env opts sources root).run w (.ok report) w' →
    ∀ l ∈ w.host.filesBelow root,
      w'.host.kindAt l ≠ w.host.kindAt l → w'.host.kindAt (place l) = w.host.kindAt l

/-- Every change of the transfer is made where nothing is lost of what was in the regular files
below the destination. -/
def BacksUp (closed : Bool) (env : LocalEnv) (opts : Options) (sources : List FsPath)
    (root : FsPath) (place : Location → Location) (w : Endpoint Disk UInt8) : Prop :=
  Proc.Meets (backs (w.host.backups root place))
    (Prog.Answers (Endpoint.answer Disk.answer closed)) (runLocal env opts sources root) w

/-- Whatever the options are and wherever the places for backups are, a transfer keeps a backup of
each file that it replaces or removes when its changes are made where nothing is lost. -/
theorem backups_kept
    (closed : Bool) (env : LocalEnv) (opts : Options) (sources : List FsPath) (root : FsPath)
    (place : Location → Location) (w : Endpoint Disk UInt8)
    (hbacks : BacksUp closed env opts sources root place w) :
  KeepsBackups closed env opts sources root place w
  := by
  intro report w' hr l hl hchanged
  have hsafe := moves_runLocal_backs sources root w (w.host.backups root place).safe_before hbacks
    (.ok report) w' hr
  obtain ⟨x, hx, hholds, -⟩ := hsafe l hl
  rcases hx with rfl | rfl
  · exact absurd hholds hchanged
  · exact hholds

/-- The place of a name with a tilde. -/
def tildePlace (l : Location) : Location :=
  l.dropLast ++ [l.getLast?.getD [] ++ bytesOf "~"]

/-! ### A file that is replaced -/

/-- A file to be copied, and a directory with an older one of its name. -/
def olderCopy : Endpoint Disk UInt8 where
  host := ((Disk.blank.create [[98]] { kind := .file [2, 2] }).create [[100]]
    { kind := .dir }).create [[100], [98]] { kind := .file [1] }
  input := []
  buffer := []
  sent := []

namespace OlderCopy

/-- The calls of the transfer, each with the number of calls before it. -/
def transferCalls : List (ℕ × FsCall) :=
  [(0, .metadata [sep, 100]), (0, .createDirAll [sep, 100]), (1, .symlinkMetadata [sep, 98]),
    (1, .symlinkMetadata [sep, 100, sep, 98]), (1, .pathExists [sep, 100, sep, 98]),
    (1, .rename [sep, 100, sep, 98] [sep, 100, sep, 98, 126]), (2, .createDirAll [sep, 100]),
    (3, .copyFile [sep, 98] [sep, 100, sep, 46, 98, 46, 48, 46, 116, 109, 112]),
    (4, .rename [sep, 100, sep, 46, 98, 46, 48, 46, 116, 109, 112] [sep, 100, sep, 98])]

/-- The copy from the temporary name leaves the file at the place `x`. -/
def leaves (d : Disk) (tmp dest : FsPath) (x : Location) : Bool :=
  match parentMade d dest with
  | some (.ok (), d₁) =>
    d₁.lplace dest ≠ some x && d₁.lplace tmp ≠ some x && (d₁.place tmp).bind d₁.nodes = none
  | _ => true

/-- The call succeeds, and where the file has been renamed the copy leaves it. -/
def served (d : Disk) : FsCall → Bool
  | .createDirAll p => (d.createDirAll p).2 && d.fault d.calls = none &&
      (d.calls ≠ 2 || d.kindAt [[100], [98, 126]] = some (.file [1]) &&
        leaves d [sep, 100, sep, 46, 98, 46, 48, 46, 116, 109, 112] [sep, 100, sep, 98]
          [[100], [98, 126]])
  | .copyFile p q => (d.copyFile none p q).isSome && d.fault d.calls = none
  | .rename p q => (d.rename p q).isSome && d.fault d.calls = none &&
      (d.calls ≠ 1 || d.lplace p = some [[100], [98]] && d.lplace q = some [[100], [98, 126]] &&
        d.kindAt [[100], [98]] = some (.file [1]))
  | .symlinkMetadata p => (d.stat (d.lplace p)).isOk
  | .pathExists p => ((d.place p).bind d.inode?).isSome
  | _ => true

/-- The call is one of the transfer. -/
def planned (w : Endpoint Disk UInt8) : Act UInt8 FsCall → Bool
  | .host c => (w.host.calls, c) ∈ transferCalls && served w.host c
  | _ => false

theorem of_leaves
    {d d₁ : Disk} {tmp dest : FsPath} {x : Location} (h : leaves d tmp dest x = true)
    (hmade : parentMade d dest = some (.ok (), d₁)) :
  d₁.lplace dest ≠ some x ∧ d₁.lplace tmp ≠ some x ∧
    ∀ y i, d₁.place tmp = some y → d₁.nodes y = some i → d₁.nodes x ≠ some i
  := by
  simp only [leaves, hmade, Bool.and_eq_true, decide_eq_true_iff] at h
  refine ⟨h.1.1, h.1.2, fun y i hy hi => ?_⟩
  rw [hy, Option.bind_some, hi] at h
  cases h.2

section Issued

variable {closed : Bool} {w : Endpoint Disk UInt8} {α : Type}

/-- The procedure makes only calls of the transfer. -/
abbrev Planned (closed : Bool) (p : Session FsReply α) (w : Endpoint Disk UInt8) : Prop :=
  Proc.IssuesOnly Disk.answer closed (fun w c => planned w c = true) p w

theorem of_planned
    {c : FsCall} (h : planned w (.host c) = true) :
  (w.host.calls, c) ∈ transferCalls ∧ served w.host c = true
  := by
  rw [planned, Bool.and_eq_true, decide_eq_true_iff] at h
  exact h

/-- No file is removed. -/
theorem not_planned_removeFile
    {path : FsPath} {f : Unit → Session FsReply α} :
  ¬ Planned closed (Fs.orIgnore (Fs.removeFile path) >>= f) w
  := by
  intro h
  rw [Fs.orIgnore, bind_assoc] at h
  have hcall := (of_planned (Proc.IssuesOnly.host_bind (x := FsCall.removeFile path) h).1).1
  simp [transferCalls] at hcall

/-- The directory that is made is that of the file. -/
theorem of_planned_createDirAll
    {path : FsPath} (h : planned w (.host (.createDirAll path)) = true) :
  path = [sep, 100] ∧ w.host.answer (.createDirAll path) =
    some (.ok (), (w.host.createDirAll path).1.tick)
  := by
  obtain ⟨hmem, hserved⟩ := of_planned h
  have hpath : w.host.calls = 0 ∧ path = [sep, 100] ∨ w.host.calls = 2 ∧ path = [sep, 100] := by
    simpa [transferCalls] using hmem
  refine ⟨hpath.elim And.right And.right, ?_⟩
  simp only [served, Bool.and_eq_true, decide_eq_true_iff] at hserved
  simp only [answer, hserved.1.1, hserved.1.2, if_pos]

theorem Planned.createParent_bind
    {path : FsPath} {f : Unit → Session FsReply α}
    (h : Planned closed (createParent path >>= f) w) :
  ∃ d, parentMade w.host path = some (.ok (), d) ∧ Planned closed (f ()) { w with host := d } ∧
    (path.parent ≠ some [sep, 100] ∧ d = w.host ∨
      planned w (.host (.createDirAll [sep, 100])) = true ∧ d.calls = w.host.calls + 1)
  := by
  unfold createParent at h
  unfold parentMade
  cases hparent : path.parent with
  | none =>
      rw [hparent] at h
      exact ⟨w.host, rfl, h, Or.inl ⟨nofun, rfl⟩⟩
  | some parent =>
      rw [hparent] at h
      dsimp only at h ⊢
      split
      · next hempty =>
        rw [if_pos hempty] at h
        refine ⟨w.host, rfl, h, Or.inl ⟨fun heq => ?_, rfl⟩⟩
        rw [hempty] at heq
        cases heq
      next hempty =>
      rw [if_neg hempty, Fs.orFail, bind_assoc] at h
      obtain ⟨hcall, hrest⟩ := Proc.IssuesOnly.host_bind (x := FsCall.createDirAll parent) h
      obtain ⟨rfl, hanswer⟩ := of_planned_createDirAll hcall
      refine ⟨_, hanswer, hrest _ _ hanswer, Or.inr ⟨hcall, congrArg (· + 1) ?_⟩⟩
      exact createDirAll_keeps (J := fun d => d.calls = w.host.calls) (fun _ _ _ hd _ _ => hd) rfl _

/-- A link is not made. -/
theorem not_planned_linkFrom
    {ldPath dest : FsPath} :
  ¬ Planned closed (linkFrom ldPath dest) w
  := by
  intro h
  rw [linkFrom, tryCreateParent] at h
  split at h
  · split at h
    · exact not_planned_removeFile h
    · next parent _ _ =>
      rw [Fs.orIgnore, bind_assoc] at h
      obtain ⟨hcall, hrest⟩ := Proc.IssuesOnly.host_bind (x := FsCall.createDirAll parent) h
      exact not_planned_removeFile (hrest _ _ (of_planned_createDirAll hcall).2)
  · exact not_planned_removeFile h

theorem Planned.dryRun_of_linkToFirst
    {opts : Options} {first dest : FsPath} (h : Planned closed (linkToFirst opts first dest) w) :
  opts.dryRun = true
  := by
  by_contra hdry
  rw [linkToFirst, if_neg hdry] at h
  obtain ⟨d, -, hrest, -⟩ := h.createParent_bind
  exact not_planned_removeFile hrest

theorem Planned.dryRun_of_removeExtraneous
    {opts : Options} {path : FsPath} (h : Planned closed (removeExtraneous opts path) w) :
  opts.dryRun = true
  := by
  by_contra hdry
  rw [removeExtraneous, unlessDry, if_neg hdry, Fs.orFail, bind_assoc] at h
  obtain ⟨hcall, hrest⟩ := Proc.IssuesOnly.host_bind (x := FsCall.symlinkMetadata path) h
  have hok : (w.host.stat (w.host.lplace path)).isOk = true := (of_planned hcall).2
  cases hstat : w.host.stat (w.host.lplace path) with
  | error msg =>
      rw [hstat] at hok
      cases hok
  | ok info =>
      have hnext := hrest (.ok info) w.host (congrArg (fun r => some (r, w.host)) hstat)
      rw [pure_bind] at hnext
      split at hnext
      · have hremove := Proc.IssuesOnly.host_bind (x := FsCall.removeDirAll path) hnext
        simpa [transferCalls] using (of_planned hremove.1).1
      · have hremove := Proc.IssuesOnly.host_bind (x := FsCall.removeFile path) hnext
        simpa [transferCalls] using (of_planned hremove.1).1

/-- What the copy of an entry is when it makes only calls of the transfer: a file is renamed to its
destination from its temporary name, after the old one has been renamed. -/
theorem Planned.copyOver_spares
    {env : LocalEnv} {opts : Options} {src dest : FsPath} {info : Metadata} {st : LocalState}
    (h : Planned closed (copyOver env opts src dest info st) w) :
  info.isSymlink = false ∧ info.isFile = false ∨ dest = [sep, 100, sep, 98] ∧
    w.host.kindAt [[100], [98, 126]] = some (.file [1]) ∧
    CopySpares env dest info w.host [[100], [98, 126]]
  := by
  rw [copyOver] at h
  split at h
  · next hlink =>
    have hcall := Proc.IssuesOnly.host_bind (x := FsCall.readLink src) h.bind_left.bind_left
    simpa [transferCalls] using (of_planned hcall.1).1
  next hlink =>
  split at h
  · next hfile =>
    right
    have hregular : Planned closed (copyRegular env src dest) w := h.bind_left
    obtain ⟨d, hmade, hrest, hcase⟩ := Planned.createParent_bind hregular
    rw [copyThrough, bind_assoc] at hrest
    obtain ⟨hcopy, hcopied⟩ :=
      Proc.IssuesOnly.host_bind (x := FsCall.copyFile src (tmpSibling env dest)) hrest
    obtain ⟨hmem, hserved⟩ := of_planned hcopy
    have hcalls : d.calls = 3 ∧ src = [sep, 98] ∧
        tmpSibling env dest = [sep, 100, sep, 46, 98, 46, 48, 46, 116, 109, 112] := by
      simpa [transferCalls] using hmem
    have hanswer : ∃ d', d.answer (.copyFile src (tmpSibling env dest)) = some (.ok (), d') := by
      simp only [served, Bool.and_eq_true, decide_eq_true_iff, Option.isSome_iff_exists] at hserved
      obtain ⟨⟨d', hd'⟩, hfault⟩ := hserved
      exact ⟨d'.tick, by simp only [answer, modifyPart, hfault, hd']⟩
    obtain ⟨d', hanswer⟩ := hanswer
    have hrename := (Proc.IssuesOnly.host_bind (x := FsCall.rename (tmpSibling env dest) dest)
      (hcopied _ _ hanswer)).1
    have hdest : dest = [sep, 100, sep, 98] := by
      have hmem := (of_planned hrename).1
      rw [hcalls.2.2] at hmem
      have hlast : d'.calls = 4 ∧ dest = [sep, 100, sep, 98] := by
        simpa [transferCalls, sep] using hmem
      exact hlast.2
    subst hdest
    rcases hcase with ⟨hparent, -⟩ | ⟨hcall, hnext⟩
    · exact absurd (by decide +kernel) hparent
    · obtain ⟨-, hfacts⟩ := of_planned hcall
      have htwo : w.host.calls = 2 := Nat.succ.inj (hnext.symm.trans hcalls.1)
      simp only [served, htwo, ne_eq, not_true_eq_false, decide_false, Bool.false_or,
        Bool.and_eq_true, decide_eq_true_iff] at hfacts
      refine ⟨rfl, hfacts.2.1, ?_⟩
      rw [CopySpares, if_neg hlink, if_pos hfile, hcalls.2.2]
      exact fun d₁ hmade₁ => of_leaves hfacts.2.2 hmade₁
  · next hfile =>
    exact Or.inl ⟨Bool.eq_false_of_not_eq_true hlink, Bool.eq_false_of_not_eq_true hfile⟩

theorem copySpares_of_neither
    {env : LocalEnv} {dest : FsPath} {info : Metadata} {d : Disk} {x : Location}
    (hlink : info.isSymlink = false) (hfile : info.isFile = false) :
  CopySpares env dest info d x
  := by
  rw [CopySpares, hlink, hfile]
  trivial

theorem Planned.copySpares
    {env : LocalEnv} {opts : Options} {src dest : FsPath} {info : Metadata} {st : LocalState}
    (h : Planned closed (copyOver env opts src dest info st) w) :
  CopySpares env dest info w.host [[100], [98, 126]]
  := by
  rcases h.copyOver_spares with ⟨hlink, hfile⟩ | ⟨-, -, hspares⟩
  · exact copySpares_of_neither hlink hfile
  · exact hspares

variable {l : Location}

theorem filesBelow_olderCopy
    (hl : l ∈ (olderCopy.host.backups [sep, 100] tildePlace).files) :
  l = [[100], [98]]
  := by
  obtain ⟨⟨inode, data, hinode, hdata⟩, r, hr, t, rfl⟩ := hl
  have hplace : olderCopy.host.place [sep, 100] = some [[100]] := by decide +kernel
  cases hr.symm.trans hplace
  obtain ⟨i, hi, rfl⟩ := nodes_of_inode? (List.cons_ne_nil _ _) hinode
  by_cases hdir : t = []
  · subst hdir
    have hkind : olderCopy.host.kindAt ([[100]] ++ []) = some .dir := by decide +kernel
    rw [kindAt, hinode, Option.map_some] at hkind
    cases hdata.symm.trans (Option.some.inj hkind)
  · by_contra hne
    have hnodes : olderCopy.host.nodes ([[100]] ++ t) = none := by
      rw [olderCopy, create_nodes, if_neg hne, create_nodes, if_neg (by simpa using hdir),
        create_nodes, if_neg (by simp), blank]
    cases hnodes.symm.trans hi

theorem kindAt_olderCopy :
  (olderCopy.host.backups [sep, 100] tildePlace).before.kindAt [[100], [98]] = some (.file [1])
  := by decide +kernel

theorem tildePlace_olderCopy :
  tildePlace [[100], [98]] = [[100], [98, 126]]
  := by decide +kernel

theorem heldAt_olderCopy
    {d : Disk} {φ : Location → Prop} {x : Location}
    (hx : x = [[100], [98]] ∨ x = [[100], [98, 126]]) (hkind : d.kindAt x = some (.file [1]))
    (hφ : φ x) :
  (olderCopy.host.backups [sep, 100] tildePlace).HeldAt d φ [[100], [98]]
  := by
  exact ⟨x, hx.imp_right fun h => h.trans tildePlace_olderCopy.symm,
    hkind.trans kindAt_olderCopy.symm, hφ⟩

section Held

variable {env : LocalEnv} {opts : Options} {src dest : FsPath} {info : Metadata} {st : LocalState}

/-- The copy of an entry leaves one of the places that hold what was in the file. -/
theorem Planned.heldAt_copyOver
    {w₁ : Endpoint Disk UInt8} (hhost : w₁.host = w.host)
    (hheld : (olderCopy.host.backups [sep, 100] tildePlace).HeldAt w.host (fun _ => True)
      [[100], [98]])
    (h : Planned closed (copyOver env opts src dest info st) w₁) :
  (olderCopy.host.backups [sep, 100] tildePlace).HeldAt w.host (CopySpares env dest info w.host)
    [[100], [98]]
  := by
  rcases h.copyOver_spares with ⟨hlink, hfile⟩ | ⟨-, hkind, hspares⟩
  · obtain ⟨x, hx, hholds, -⟩ := hheld
    exact ⟨x, hx, hholds, copySpares_of_neither hlink hfile⟩
  · rw [hhost] at hkind hspares
    exact heldAt_olderCopy (Or.inr rfl) hkind hspares

/-- Nothing is copied to a directory of backups. -/
theorem not_planned_backupCopy
    {bp : FsPath} (hcalls : w.host.calls = 1) :
  ¬ Planned closed (do
    createParent bp
    Fs.orFail (Fs.copyFile dest bp)) w
  := by
  intro h
  obtain ⟨d, -, hcopy, ⟨-, rfl⟩ | ⟨hcreate, -⟩⟩ := h.createParent_bind
  · have hcall := (Proc.IssuesOnly.host_bind (x := FsCall.copyFile dest bp) hcopy).1
    simpa [transferCalls, hcalls] using (of_planned hcall).1
  · simpa [transferCalls, hcalls] using (of_planned hcreate).1

/-- The file is renamed to the name with a tilde, and the copy leaves it there. -/
theorem Planned.renameSpares
    {bp : FsPath} (hcalls : w.host.calls = 1) (hdest : dest = [sep, 100, sep, 98])
    (h : Planned closed (do
      Fs.orFail (Fs.rename dest bp)
      copyOver env opts src dest info st) w) :
  RenameSpares (olderCopy.host.backups [sep, 100] tildePlace) env dest bp info w.host [[100], [98]]
  := by
  subst hdest
  rw [Fs.orFail, bind_assoc] at h
  obtain ⟨hrename, hnext⟩ :=
    Proc.IssuesOnly.host_bind (x := FsCall.rename [sep, 100, sep, 98] bp) h
  obtain ⟨hmem, hserved⟩ := of_planned hrename
  have hbp : bp = [sep, 100, sep, 98, 126] := by
    simpa [transferCalls, hcalls] using hmem
  subst hbp
  simp only [served, hcalls, ne_eq, not_true_eq_false, decide_false, Bool.false_or,
    Bool.and_eq_true, decide_eq_true_iff] at hserved
  obtain ⟨-, ⟨hlp, hlq⟩, hkind⟩ := hserved
  intro d' hanswer
  have hrest := hnext _ _ hanswer
  rw [pure_bind] at hrest
  right
  refine ⟨_, _, hlp, hkind.trans kindAt_olderCopy.symm, hlq, Or.inr tildePlace_olderCopy.symm, ?_⟩
  have hspares := Planned.copySpares hrest
  exact hspares

/-- The transfer of an entry leaves one of the places that hold what was in the file, or it renames
the file to its backup. -/
theorem Planned.transferSpares
    (hheld : (olderCopy.host.backups [sep, 100] tildePlace).HeldAt w.host (fun _ => True)
      [[100], [98]])
    (h : Planned closed (transferEntry env opts src dest info st) w) :
  TransferSpares (olderCopy.host.backups [sep, 100] tildePlace) env opts dest info w.host
    [[100], [98]]
  := by
  rw [transferEntry_eq, backup] at h
  unfold TransferSpares
  by_cases hbackup : opts.backup = true
  · rw [if_pos hbackup, bind_assoc] at h
    obtain ⟨hcall, hnext⟩ := Proc.IssuesOnly.host_bind (x := FsCall.pathExists dest) h
    have hrest := hnext _ w.host rfl
    by_cases hpresent : ((w.host.place dest).bind w.host.inode?).isSome
    · rw [if_pos ⟨hbackup, hpresent⟩]
      rw [if_pos hpresent] at hrest
      have hfirst : w.host.calls = 1 ∧ dest = [sep, 100, sep, 98] := by
        simpa [transferCalls] using (of_planned hcall).1
      unfold backupFile at hrest
      cases hdir : opts.backupDir with
      | some dir =>
          rw [hdir] at hrest
          exact absurd (Proc.IssuesOnly.bind_left hrest) (not_planned_backupCopy hfirst.1)
      | none =>
          rw [hdir] at hrest
          dsimp only at hrest ⊢
          split
          · next hsame =>
            rw [if_pos hsame, pure_bind] at hrest
            exact Planned.heldAt_copyOver rfl hheld hrest
          · next hother =>
            rw [if_neg hother] at hrest
            exact Planned.renameSpares hfirst.1 hfirst.2 hrest
    · rw [if_neg fun hand => hpresent hand.2]
      rw [if_neg hpresent] at hrest
      exact Planned.heldAt_copyOver rfl hheld hrest
  · rw [if_neg fun hand => hbackup hand.1]
    rw [if_neg hbackup] at h
    exact Planned.heldAt_copyOver rfl hheld h

end Held

/-- A change that makes only calls of the transfer takes nothing away that is held at one place
only. -/
theorem planned_backs
    (i : Change) (h : Planned closed i.proc w) :
  i.Backs (olderCopy.host.backups [sep, 100] tildePlace) w.host
  := by
  intro l hl hheld
  cases filesBelow_olderCopy hl
  cases i with
  | linkToFirst opts first dest => exact Or.inl h.dryRun_of_linkToFirst
  | linkFrom ldPath dest => exact absurd h not_planned_linkFrom
  | removeExtraneous opts path => exact Or.inl h.dryRun_of_removeExtraneous
  | transferEntry env opts src dest info st => exact Planned.transferSpares hheld h

end Issued

theorem backsUp :
  BacksUp true {} { backup := true } [[sep, 98]] [sep, 100] tildePlace olderCopy
  := by
  have hrun : (Prog.eval (Prog.onlyIf planned (Endpoint.answer Disk.answer true)) 5
      (runLocal {} { backup := true } [[sep, 98]] [sep, 100]).run olderCopy).isSome := by
    decide +kernel
  obtain ⟨⟨r, w'⟩, heval⟩ := Option.isSome_iff_exists.mp hrun
  intro i w₁ hv
  exact planned_backs i (hv.safe (Prog.safe_of_ends_onlyIf (Prog.ends_of_eval heval)))

end OlderCopy

theorem backups_kept_olderCopy :
  KeepsBackups true {} { backup := true } [[sep, 98]] [sep, 100] tildePlace olderCopy
  := backups_kept true {} { backup := true } [[sep, 98]] [sep, 100] tildePlace olderCopy
    OlderCopy.backsUp

/-! ### A second name -/

/-- Two names of a file to be copied, and a file at each of their destinations. -/
def linkedNames : Endpoint Disk UInt8 where
  host := ((((Disk.blank.create [[97]] { kind := .file [2] }).link [[98]] 0
    (Nat.zero_lt_succ _)).create [[100]] { kind := .dir }).create [[100], [97]]
      { kind := .file [1, 1] }).create [[100], [98]] { kind := .file [3, 3] }
  input := []
  buffer := []
  sent := []

/-- The second name of a file is linked over a file that has not been copied aside. -/
theorem not_backups_kept :
  ¬ ∀ (closed : Bool) (env : LocalEnv) (opts : Options) (sources : List FsPath) (root : FsPath)
    (w : Endpoint Disk UInt8), opts.backup = true → opts.backupDir = none → opts.suffix = none →
    opts.dryRun = false → KeepsBackups closed env opts sources root tildePlace w
  := by
  intro h
  have hrun : (Prog.eval (Endpoint.answer Disk.answer true) 5 (runLocal {}
      { backup := true, hardLinks := true } [[sep, 97], [sep, 98]] [sep, 100]).run
        linkedNames).map (fun x => (x.1.isOk, x.2.host.kindAt [[100], [98]],
          x.2.host.kindAt (tildePlace [[100], [98]]))) = some (true, some (.file [2]), none) := by
    decide +kernel
  obtain ⟨⟨r, w'⟩, heval, hleft⟩ := Option.map_eq_some_iff.mp hrun
  cases r with
  | error msg => cases hleft
  | ok report =>
      have hfile : [[100], [98]] ∈ linkedNames.host.filesBelow [sep, 100] := by
        refine ⟨⟨{ kind := .file [3, 3] }, [3, 3], ?_, rfl⟩, [[100]], ?_, [[98]], rfl⟩
        · decide +kernel
        · decide +kernel
      have hbefore : linkedNames.host.kindAt [[100], [98]] = some (.file [3, 3]) := by
        decide +kernel
      obtain ⟨-, hleft⟩ := Prod.mk.inj hleft
      obtain ⟨hkind, hbackup⟩ := Prod.mk.inj hleft
      have hchanged : w'.host.kindAt [[100], [98]] ≠ linkedNames.host.kindAt [[100], [98]] := by
        intro hsame
        cases hkind.symm.trans (hsame.trans hbefore)
      have hkept := h true {} { backup := true, hardLinks := true } [[sep, 97], [sep, 98]]
        [sep, 100] linkedNames rfl rfl rfl rfl report w' (Prog.ends_of_eval heval) [[100], [98]]
        hfile hchanged
      cases hbackup.symm.trans (hkept.trans hbefore)
