import RsyncRs.Fs.Backups
import RsyncRs.Local.Failure
import RsyncRs.Local.Traversal
import RsyncRs.Local.Untouched

/-!
# Files that are replaced

With backups, a file that is replaced by a copy is kept under another name. A link takes the place
of a file without one, and so does a removal. A backup is itself a file that may be replaced.
-/

namespace Local

open Disk

variable {closed : Bool} {b : Backups} {d d' : Disk} {opts : Options} {env : LocalEnv}
  {src dest rel first ldPath bp : FsPath} {info : Metadata} {st : LocalState}

/-! ### Changes -/

/-- The parts of a local transfer that may replace or remove something. -/
inductive Change where
  | linkToFirst (opts : Options) (first dest : FsPath)
  | linkFrom (ldPath dest : FsPath)
  | transferEntry (env : LocalEnv) (opts : Options) (src dest : FsPath) (info : Metadata)
      (st : LocalState)
  | removeExtraneous (opts : Options) (path : FsPath)

namespace Change

/-- What a change returns. -/
abbrev Result : Change → Type
  | linkToFirst .. | removeExtraneous .. => Unit
  | linkFrom .. => Bool
  | transferEntry .. => LocalState

/-- The procedure of a change. -/
abbrev proc : (i : Change) → Session FsReply i.Result
  | linkToFirst opts first dest => Local.linkToFirst opts first dest
  | linkFrom ldPath dest => Local.linkFrom ldPath dest
  | transferEntry env opts src dest info st => Local.transferEntry env opts src dest info st
  | removeExtraneous opts path => Local.removeExtraneous opts path

end Change

/-- The copy of an entry leaves the file at the place `x`: neither the destination nor its temporary
file is there, and what is written to the temporary file is not written to it. -/
def CopySpares (env : LocalEnv) (dest : FsPath) (info : Metadata) (d : Disk) (x : Location) :
    Prop :=
  if info.isSymlink then d.lplace dest ≠ some x
  else if info.isFile then
    ∀ d₁, parentMade d dest = some (.ok (), d₁) → d₁.lplace dest ≠ some x ∧
      d₁.lplace (tmpSibling env dest) ≠ some x ∧
      ∀ y i, d₁.place (tmpSibling env dest) = some y → d₁.nodes y = some i → d₁.nodes x ≠ some i
  else True

/-- The destination is renamed to `bp`: one of the places that hold what was at `l` is neither
there nor where the destination is, or the destination holds it and is renamed to one of its two
places. The copy leaves that place. -/
def RenameSpares (b : Backups) (env : LocalEnv) (dest bp : FsPath) (info : Metadata) (d : Disk)
    (l : Location) : Prop :=
  ∀ d', d.answer (.rename dest bp) = some (.ok (), d') →
    b.HeldAt d (fun x => (∀ y, d.lplace dest = some y ∨ d.lplace bp = some y → ¬ y <+: x) ∧
      CopySpares env dest info d' x) l ∨
    ∃ x y, d.lplace dest = some x ∧ b.Holds d l x ∧ d.lplace bp = some y ∧
      (y = l ∨ y = b.place l) ∧ CopySpares env dest info d' y

/-- The destination is copied to `bp`: one of the places that hold what was at `l` is not written
to, or the destination holds it and is copied to one of its two places. The copy leaves that
place. -/
def CopyBackSpares (b : Backups) (env : LocalEnv) (dest bp : FsPath) (info : Metadata) (d : Disk)
    (l : Location) : Prop :=
  ∀ d', d.answer (.copyFile dest bp) = some (.ok (), d') →
    b.HeldAt d (fun x => (∀ y i, d.place bp = some y → d.nodes y = some i → d.nodes x ≠ some i) ∧
      CopySpares env dest info d' x) l ∨
    ∃ x y, d.place dest = some x ∧ b.Holds d l x ∧ d.place bp = some y ∧
      (y = l ∨ y = b.place l) ∧
      (∀ i, d.nodes y = some i → d.nodes x ≠ some i ∧ ∃ old, (d.inodes i).kind = .file old) ∧
      CopySpares env dest info d' y

/-- The transfer of an entry leaves one of the places that hold what was at `l`, or its backup is
one of them. -/
def TransferSpares (b : Backups) (env : LocalEnv) (opts : Options) (dest : FsPath)
    (info : Metadata) (d : Disk) (l : Location) : Prop :=
  if opts.backup = true ∧ ((d.place dest).bind d.inode?).isSome then
    match opts.backupDir with
    | some _ => ∀ d₁, parentMade d (backupPath opts dest) = some (.ok (), d₁) →
        CopyBackSpares b env dest (backupPath opts dest) info d₁ l
    | none =>
      if FsPath.components (backupPath opts dest) = FsPath.components dest then
        b.HeldAt d (CopySpares env dest info d) l
      else
        RenameSpares b env dest (backupPath opts dest) info d l
  else
    b.HeldAt d (CopySpares env dest info d) l

/-- The change leaves one of the places that hold what was at `l`, or puts a file with the same
content there. -/
def Change.Spares (b : Backups) : Change → Disk → Location → Prop
  | linkToFirst opts first dest, d, l =>
    opts.dryRun = true ∨
      b.HeldAt d (fun x => ∀ d₁, parentMade d dest = some (.ok (), d₁) → d₁.lplace dest ≠ some x)
        l ∨
      d.fileOf first = b.before.kindAt l
  | linkFrom ldPath dest, d, l =>
    b.HeldAt d (fun x => ∀ r d₁, parentMade d dest = some (r, d₁) →
      d₁.lplace (linkTmp dest) ≠ some x ∧
        (d₁.lplace dest ≠ some x ∨ d.fileOf ldPath = b.before.kindAt l)) l
  | transferEntry env opts _ dest info _, d, l => TransferSpares b env opts dest info d l
  | removeExtraneous opts path, d, l =>
    opts.dryRun = true ∨ b.HeldAt d (fun x => ∀ y, d.lplace path = some y → ¬ y <+: x) l

/-- The change takes nothing away that is held at one place only. -/
def Change.Backs (b : Backups) (i : Change) (d : Disk) : Prop :=
  ∀ l ∈ b.files, b.HeldAt d (fun _ => True) l → i.Spares b d l

/-- The changes are to be made where nothing is lost of what the files held. -/
abbrev backs (b : Backups) : Watch UInt8 FsReply Error (Endpoint Disk UInt8) where
  Index := Change
  Result := Change.Result
  step := Change.proc
  cond i w := i.Backs b w.host

/-! ### Copies -/

section Copies

variable {m : Watch UInt8 FsReply Error (Endpoint Disk UInt8)} {l x : Location} {data : List UInt8}

/-- What holds the content of each file is safe. -/
theorem moves_safe
    {α : Type} {P : Disk → Prop} {p : Session FsReply α}
    (h : ∀ l ∈ b.files, Moves m closed P p (fun _ d => b.HeldAt d (fun _ => True) l)
      fun _ => True) :
  Moves m closed P p (fun _ => b.Safe) fun _ => True
  := by
  intro w hw hmeets r w' hr
  cases r with
  | ok a => exact fun l hl => h l hl w hw hmeets (.ok a) w' hr
  | error e => trivial

/-- A file that is left holds what it held. -/
theorem moves_heldAt
    {α : Type} {p : Session FsReply α} (hl : l ∈ b.files) (hx : x = l ∨ x = b.place l)
    (hholds : b.Holds d l x)
    (h : ∀ data, d.kindAt x = some (.file data) →
      Moves m closed (· = d) p (fun _ d' => d'.kindAt x = some (.file data)) fun _ => True) :
  Moves m closed (· = d) p (fun _ d' => b.HeldAt d' (fun _ => True) l) fun _ => True
  := by
  obtain ⟨data, hbefore⟩ := Backups.before_file hl
  apply (h data (hholds.trans hbefore)).consequence (fun _ hd => hd)
  · exact fun _ d' hd => ⟨x, hx, hd.trans hbefore.symm, trivial⟩
  · exact fun _ _ => trivial

theorem moves_copyOver_leaves
    (hx : d.kindAt x = some (.file data)) (h : CopySpares env dest info d x) :
  Moves m closed (· = d) (copyOver env opts src dest info st)
    (fun _ d' => d'.kindAt x = some (.file data)) fun _ => True
  := by
  have hstable : Stable fun d' => d'.kindAt x = some (.file data) :=
    Stable.of_grows fun _ _ hd hgrows => hgrows.kindAt hd
  unfold CopySpares at h
  unfold copyOver
  split
  · next hlink =>
    rw [if_pos hlink] at h
    apply (moves_copySymlink_leaves hx h).bind
    intro _
    exact Moves.pure fun _ hd => hd
  next hlink =>
  rw [if_neg hlink] at h
  split
  · next hfile =>
    rw [if_pos hfile] at h
    apply (moves_copyRegular_leaves hx (fun d₁ hmade => (h d₁ hmade).1)
      (fun d₁ hmade => (h d₁ hmade).2.1) fun d₁ hmade => (h d₁ hmade).2.2).bind
    intro _
    apply (moves_whenever (Moves.orIgnore (Moves.copyXattrs hstable))).bind
    intro _
    apply (moves_applyFileMeta hstable opts dest info).bind
    intro _
    exact Moves.pure fun _ hd => hd
  · exact Moves.pure fun _ hd => hd ▸ hx

theorem moves_copyOver_heldAt
    (hl : l ∈ b.files) (h : b.HeldAt d (CopySpares env dest info d) l) :
  Moves m closed (· = d) (copyOver env opts src dest info st)
    (fun _ d' => b.HeldAt d' (fun _ => True) l) fun _ => True
  := by
  obtain ⟨x, hx, hholds, hspares⟩ := h
  exact moves_heldAt hl hx hholds fun data hdata => moves_copyOver_leaves hdata hspares

/-! ### Backups -/

theorem RenameSpares.heldAt
    (h : RenameSpares b env dest bp info d l) (hl : l ∈ b.files)
    (hanswer : d.answer (.rename dest bp) = some (.ok (), d')) :
  b.HeldAt d' (CopySpares env dest info d') l
  := by
  obtain ⟨-, d₁, hrename, rfl⟩ := modify_ok (d := d) (e := d.rename dest bp) hanswer
  rcases h _ hanswer with ⟨x, hx, hholds, haside, hspares⟩ | ⟨x, y, hxp, hholds, hyp, hy, hspares⟩
  · have hrenamed : b.Holds d₁ l x := hholds.renamed hl hrename haside
    exact ⟨x, hx, hrenamed, hspares⟩
  · have hmoved : b.Holds d₁ l y := hholds.moved hl hrename hxp hyp
    exact ⟨y, hy, hmoved, hspares⟩

theorem CopyBackSpares.heldAt
    (h : CopyBackSpares b env dest bp info d l) (hl : l ∈ b.files)
    (hanswer : d.answer (.copyFile dest bp) = some (.ok (), d')) :
  b.HeldAt d' (CopySpares env dest info d') l
  := by
  have hpart : d.modifyPart (fun n => d.copyFile n dest bp) = some (.ok (), d') := hanswer
  rcases modifyPart_cases hpart with ⟨n, d₁, hcopy, hn, rfl⟩ | ⟨⟨_, herror⟩, -⟩
  · rcases h _ hanswer with ⟨x, hx, hholds, haside, hspares⟩ |
      ⟨x, y, hxp, hholds, hyp, hy, hother, hspares⟩
    · have hleft : b.Holds d₁ l x := hholds.copied_aside hl hcopy haside
      exact ⟨x, hx, hleft, hspares⟩
    · cases hn rfl
      have hcopied : b.Holds d₁ l y := hholds.copied hl hcopy hxp hyp hother
      exact ⟨y, hy, hcopied, hspares⟩
  · cases herror

/-- The copy is made after the backup, from the file system that the backup leaves. -/
theorem moves_afterBackup
    {p : Session FsReply Unit} {N : Disk → Prop} (hl : l ∈ b.files)
    (hp : Moves m closed (· = d) p (fun _ => N) (fun _ => True))
    (hspares : ∀ d', N d' → b.HeldAt d' (CopySpares env dest info d') l) :
  Moves m closed (· = d) (p >>= fun _ => copyOver env opts src dest info st)
    (fun _ d' => b.HeldAt d' (fun _ => True) l) fun _ => True
  := by
  apply hp.bind
  intro _
  apply Moves.fixed
  exact fun d' hd' => moves_copyOver_heldAt hl (hspares d' hd')

/-- An entry is transferred, and what a file held is held. -/
theorem moves_transferEntry_heldAt
    (hl : l ∈ b.files) (h : TransferSpares b env opts dest info d l) :
  Moves m closed (· = d) (transferEntry env opts src dest info st)
    (fun _ d' => b.HeldAt d' (fun _ => True) l) fun _ => True
  := by
  rw [transferEntry_eq, backup]
  unfold TransferSpares at h
  by_cases hbackup : opts.backup = true
  · rw [if_pos hbackup, bind_assoc]
    apply Moves.bind (Q := fun present d' =>
      present = ((d.place dest).bind d.inode?).isSome ∧ d' = d)
    · apply Moves.pathExists
      rintro d' rfl
      exact ⟨rfl, rfl⟩
    intro present
    apply Moves.assuming
    rintro rfl
    split
    · next hpresent =>
      rw [if_pos ⟨hbackup, hpresent⟩] at h
      unfold backupFile
      cases hdir : opts.backupDir with
      | some dir =>
          rw [hdir] at h
          dsimp only at h ⊢
          rw [bind_assoc]
          apply Moves.bind (moves_parentMade _)
          intro _
          apply Moves.fixed
          intro d₁ hmade
          apply moves_afterBackup hl (N := fun d' =>
            d₁.answer (.copyFile dest (backupPath opts dest)) = some (.ok (), d'))
          · exact Moves.answered.orFail (fun _ _ hd => hd) fun _ _ _ => trivial
          · exact fun d' hd' => (h d₁ hmade).heldAt hl hd'
      | none =>
          rw [hdir] at h
          dsimp only at h ⊢
          split
          · next hsame =>
            rw [if_pos hsame] at h
            exact moves_copyOver_heldAt hl h
          · next hsame =>
            rw [if_neg hsame] at h
            apply moves_afterBackup hl (N := fun d' =>
              d.answer (.rename dest (backupPath opts dest)) = some (.ok (), d'))
            · exact Moves.answered.orFail (fun _ _ hd => hd) fun _ _ _ => trivial
            · exact fun d' hd' => h.heldAt hl hd'
    · next hpresent =>
      rw [if_neg fun hand => hpresent hand.2] at h
      exact moves_copyOver_heldAt hl h
  · rw [if_neg hbackup]
    rw [if_neg fun hand => hbackup hand.1] at h
    exact moves_copyOver_heldAt hl h

end Copies

/-! ### Changes that are watched -/

/-- A change keeps what is safe when it keeps what each file held. -/
theorem moves_change
    {P : Disk → Prop} (i : Change) (hP : ∀ d, P d → b.Safe d)
    (h : ∀ d, P d → ∀ l ∈ b.files, b.HeldAt d (fun _ => True) l → i.Spares b d l →
      Moves (backs b) closed (· = d) i.proc (fun _ d' => b.HeldAt d' (fun _ => True) l)
        fun _ => True) :
  Moves (backs b) closed P i.proc (fun _ => b.Safe) fun _ => True
  := by
  apply Moves.watched (φ := i.Backs b)
  · exact fun w h => h i w (Prog.Visits.refl _ w)
  apply Moves.fixed
  rintro d ⟨hd, hbacks⟩
  apply moves_safe
  intro l hl
  have hheld := hP d hd l hl
  exact h d hd l hl hheld (hbacks l hl hheld)

theorem moves_linkToFirst_backs
    (first : FsPath) :
  Moves (backs b) closed b.Safe (linkToFirst opts first dest) (fun _ => b.Safe) fun _ => True
  := by
  apply moves_change (.linkToFirst opts first dest) fun _ hd => hd
  intro d hsafe l hl hheld hspares
  rcases hspares with hdry | ⟨x, hx, hholds, haside⟩ | hsame
  · simp only [linkToFirst, if_pos hdry]
    exact Moves.pure fun _ hd => hd ▸ hheld
  · apply moves_heldAt hl hx hholds
    exact fun data hdata => moves_linkToFirst_leaves hdata fun d₁ hmade => Or.inl (haside d₁ hmade)
  · obtain ⟨x, hx, hholds, -⟩ := hheld
    apply moves_heldAt hl hx hholds
    intro data hdata
    exact moves_linkToFirst_leaves hdata fun _ _ =>
      Or.inr (hsame.trans (hholds.symm.trans hdata))

/-- A file that is linked to is put in the place of the destination. -/
theorem moves_linkFrom_backs :
  Moves (backs b) closed (fun d => b.Safe d ∧ IsFileAt d ldPath) (linkFrom ldPath dest)
    (fun _ => b.Safe) fun _ => True
  := by
  apply moves_change (.linkFrom ldPath dest) fun _ hd => hd.1
  rintro d ⟨-, hfile⟩ l hl - ⟨x, hx, hholds, haside⟩
  apply moves_heldAt hl hx hholds
  intro data hdata
  apply moves_linkFrom_leaves hdata (fun r d₁ hmade => (haside r d₁ hmade).1) ?_ hfile
  intro r d₁ hmade
  exact (haside r d₁ hmade).2.imp_right fun hsame => hsame.trans (hholds.symm.trans hdata)

theorem moves_linkFromDest_backs :
  Moves (backs b) closed b.Safe (linkFromDest opts dest rel info) (fun _ => b.Safe) fun _ => True
  := by
  unfold linkFromDest
  split
  · generalize opts.linkDest.map Str.bytes = lds
    induction lds with
    | nil => exact Moves.pure fun _ hd => hd
    | cons ld lds ih =>
        apply Moves.bind (Q := fun r d => b.Safe d ∧
          ∀ info', r = .ok info' → info'.isFile = true → IsFileAt d (linkDestPath dest rel ld))
        · apply Moves.symlinkMetadata
          exact fun d hd => ⟨hd, fun info' => isFileAt_of_stat⟩
        intro r
        cases r with
        | error msg => exact ih.consequence (fun _ hd => hd.1) (fun _ _ hd => hd) fun _ hd => hd
        | ok info' =>
            dsimp only
            split
            · next hmatch =>
              have hfile : info'.isFile = true := by
                simp only [Bool.and_eq_true] at hmatch
                exact hmatch.1.1
              split
              · exact Moves.pure fun _ hd => hd.1
              · apply moves_linkFrom_backs.consequence
                · exact fun _ hd => ⟨hd.1, hd.2 info' rfl hfile⟩
                · exact fun _ _ hd => hd
                · exact fun _ hd => hd
            · exact ih.consequence (fun _ hd => hd.1) (fun _ _ hd => hd) fun _ hd => hd
  · exact Moves.pure fun _ hd => hd

theorem moves_removeExtraneous_backs
    (path : FsPath) :
  Moves (backs b) closed b.Safe (removeExtraneous opts path) (fun _ => b.Safe) fun _ => True
  := by
  apply moves_change (.removeExtraneous opts path) fun _ hd => hd
  rintro d - l hl hheld hspares
  simp only [removeExtraneous, unlessDry]
  split
  · exact Moves.pure fun _ hd => hd ▸ hheld
  next hdry =>
  obtain ⟨x, hx, hholds, haside⟩ := hspares.resolve_left hdry
  apply moves_heldAt hl hx hholds
  intro data hdata
  have hgone : ∀ (gone : Location → Bool) y, d.lplace path = some y →
      (∀ x, gone x = true → y <+: x) → (d.unlink gone).kindAt x = some (.file data) := by
    intro gone y hy hbelow
    apply ((Kept.refl {x} d).unlink ?_).kindAt (Set.mem_singleton x) hdata
    intro x' hx'
    rw [Set.mem_singleton_iff.mp hx']
    by_contra hgone
    exact haside y hy (hbelow x (Bool.eq_true_of_not_eq_false hgone))
  apply Moves.bind (Q := fun _ d' => d' = d)
  · apply Moves.orFail (R := fun _ d' => d' = d)
    · exact Moves.symlinkMetadata fun _ hd => hd
    · exact fun _ _ hd => hd
    · exact fun _ _ _ => trivial
  intro info
  split
  · apply Moves.orFail (R := fun _ d' => d'.kindAt x = some (.file data))
    · apply Moves.call
      rintro d₁ r d' rfl hanswer
      have hmodify : d₁.modify (d₁.removeDirAll path) = some (r, d') := hanswer
      rcases modify_cases hmodify with ⟨d₂, hremove, -, rfl⟩ | ⟨-, rfl⟩
      · obtain ⟨y, inode, hy, -, -, -, rfl⟩ := removeDirAll_cases hremove
        exact hgone _ y hy fun x hx => of_decide_eq_true hx
      · exact hdata
    · exact fun _ _ hd => hd
    · exact fun _ _ _ => trivial
  · apply Moves.orFail (R := fun _ d' => d'.kindAt x = some (.file data))
    · apply Moves.removeFile
      · rintro d₁ d' rfl hremove
        obtain ⟨y, inode, hy, -, -, rfl⟩ := removeFile_cases hremove
        have hcleared : (d₁.unlink (· = y)).kindAt x = some (.file data) :=
          hgone _ y hy fun x hx => by rw [of_decide_eq_true hx]
        exact hcleared
      · rintro d₁ msg rfl
        exact hdata
    · exact fun _ _ hd => hd
    · exact fun _ _ _ => trivial

end Local
