import RsyncRs.Local.Traversal

/-!
# Files that exist at the destination

With the option to ignore them, a local transfer leaves the files alone that exist at the
destination, except where it links to the first name of a file without a look at what is there, and
where one of its temporary names is taken.
-/

namespace Local

open Disk

variable {closed : Bool} {S X : Set Location} {d d₀ : Disk} {opts : Options} {env : LocalEnv}
  {src dest rel ldPath : FsPath} {info : Metadata} {st : LocalState}

/-! ### Parts of a copy -/

/-- The parts of the copying of an entry that may change what is at its destination. -/
inductive Part where
  | linkToFirst (opts : Options) (first dest : FsPath)
  | copyUnlinked (env : LocalEnv) (opts : Options) (src dest rel : FsPath) (info : Metadata)
      (st : LocalState)
  | transferEntry (env : LocalEnv) (opts : Options) (src dest : FsPath) (info : Metadata)
      (st : LocalState)

namespace Part

/-- What a part returns. -/
abbrev Result : Part → Type
  | linkToFirst .. => Unit
  | copyUnlinked .. | transferEntry .. => LocalState

/-- The procedure of a part. -/
abbrev proc : (i : Part) → Session FsReply i.Result
  | linkToFirst opts first dest => Local.linkToFirst opts first dest
  | copyUnlinked env opts src dest rel info st => Local.copyUnlinked env opts src dest rel info st
  | transferEntry env opts src dest info st => Local.transferEntry env opts src dest info st

end Part

/-- The part may be started when the files at the places `S` are to be kept. -/
def Part.Spares (S : Set Location) : Part → Disk → Prop
  | linkToFirst opts _ dest, d => opts.dryRun = true ∨ Avoids d dest S
  | copyUnlinked env opts _ dest _ info _, d =>
    opts.dryRun = true ∨ Present d dest ∨
      (Avoids d dest S ∧ (info.isFile = true → Free d (tmpSibling env dest)) ∧
        (info.isFile = true → opts.linkDest ≠ [] →
          Free d (linkTmp dest) ∧ Apart d (tmpSibling env dest) (linkTmp dest)))
  | transferEntry _ opts _ dest _ _, d =>
    opts.backup = true → opts.linkDest ≠ [] → ¬ Present d dest

/-- The parts are to be started where they spare the files at the places `S`. -/
abbrev spares (S : Set Location) : Watch UInt8 FsReply Error (Endpoint Disk UInt8) where
  Index := Part
  Result := Part.Result
  step := Part.proc
  cond i w := i.Spares S w.host

/-! ### Links -/

section Links

variable {m : Watch UInt8 FsReply Error (Endpoint Disk UInt8)}

/-- A file that is linked to is put in the place of the destination, or nothing is lost. -/
theorem moves_linkFrom
    (hfiles : Files S d₀) (hdest : Avoids d₀ dest S) (hfree : Free d₀ (linkTmp dest))
    (hX : ∀ l, d₀.MayName false (linkTmp dest) l → l ∈ X) :
  Moves m closed (fun d => Added X d₀ d ∧ IsFileAt d ldPath) (linkFrom ldPath dest)
    (fun b d => (b = true → Kept S d₀ d) ∧ (b = false → Added X d₀ d)) (Kept S d₀)
  := by
  apply (moves_tryCreateParent ((stable_added X d₀).and (stable_isFileAt ldPath)) dest).bind
  intro _
  apply (Moves.removeTmp_noLinkAt hfree ldPath).bind
  intro _
  apply (Moves.linkTmp hfree hX).bind
  intro r
  cases r with
  | error msg =>
      apply Moves.bind (Q := fun _ => Added X d₀)
      · apply (Moves.removeTmp hfree).consequence (fun d hd => hd.1) (fun _ _ hd => hd)
        exact fun _ hd => hd
      · intro _
        exact Moves.pure fun d hd => ⟨nofun, fun _ => hd⟩
  | ok u =>
      apply Moves.bind
      · apply (Moves.renameTmp hfree hdest hfiles.ne_none).consequence
        · exact fun d hd => ⟨hd.1, hd.2 rfl⟩
        · exact fun _ _ hd => hd
        · exact fun _ hd => hd
      intro r
      cases r with
      | ok u => exact Moves.pure fun d hd => ⟨fun _ => hd.1 rfl, nofun⟩
      | error msg =>
          apply Moves.bind (Q := fun _ => Added X d₀)
          · apply (Moves.removeTmp hfree).consequence (fun d hd => hd.2 nofun) (fun _ _ hd => hd)
            exact fun _ hd => hd
          · intro _
            exact Moves.pure fun d hd => ⟨nofun, fun _ => hd⟩

theorem moves_linkFirst
    (hdry : opts.dryRun = false) (hfiles : Files S d₀) (hdest : Avoids d₀ dest S)
    (hfree : Free d₀ (linkTmp dest)) (hX : ∀ l, d₀.MayName false (linkTmp dest) l → l ∈ X)
    (lds : List FsPath) :
  Moves m closed (Added X d₀) (linkFirst opts dest rel info lds)
    (fun b d => (b = true → Kept S d₀ d) ∧ (b = false → Added X d₀ d)) (Kept S d₀)
  := by
  induction lds with
  | nil => exact Moves.pure fun d hd => ⟨nofun, fun _ => hd⟩
  | cons ld lds ih =>
      apply Moves.bind (Q := fun r d => Added X d₀ d ∧
        ∀ info', r = .ok info' → info'.isFile = true → IsFileAt d (linkDestPath dest rel ld))
      · apply Moves.symlinkMetadata
        exact fun d hd => ⟨hd, fun info' => isFileAt_of_stat⟩
      intro r
      cases r with
      | error msg => exact ih.consequence (fun d hd => hd.1) (fun _ _ hd => hd) fun _ hd => hd
      | ok info' =>
          dsimp only
          split
          · next hmatch =>
            rw [hdry, if_neg (by decide)]
            have hfile : info'.isFile = true := by
              simp only [Bool.and_eq_true] at hmatch
              exact hmatch.1.1
            apply (moves_linkFrom hfiles hdest hfree hX).consequence
            · exact fun d hd => ⟨hd.1, hd.2 info' rfl hfile⟩
            · exact fun _ _ hd => hd
            · exact fun _ hd => hd
          · exact ih.consequence (fun d hd => hd.1) (fun _ _ hd => hd) fun _ hd => hd

theorem moves_linkFromDest
    (hdry : opts.dryRun = false) (hfiles : Files S d₀) (hdest : Avoids d₀ dest S)
    (hfree : info.isFile = true → opts.linkDest ≠ [] → Free d₀ (linkTmp dest))
    (hX : opts.linkDest ≠ [] → ∀ l, d₀.MayName false (linkTmp dest) l → l ∈ X) :
  Moves m closed (· = d₀) (linkFromDest opts dest rel info)
    (fun b d => (b = true → Kept S d₀ d) ∧
      (b = false → Added X d₀ d ∧ (opts.linkDest = [] → d = d₀))) (Kept S d₀)
  := by
  unfold linkFromDest
  split
  · next hfile =>
    by_cases hld : opts.linkDest = []
    · rw [hld]
      exact Moves.pure fun d hd => ⟨nofun, fun _ => ⟨hd ▸ Added.refl X d, fun _ => hd⟩⟩
    · apply (moves_linkFirst hdry hfiles hdest (hfree hfile hld) (hX hld) _).consequence
      · exact fun d hd => hd ▸ Added.refl X d
      · exact fun b d hd => ⟨hd.1, fun hb => ⟨hd.2 hb, fun h => absurd h hld⟩⟩
      · exact fun _ hd => hd
  · exact Moves.pure fun d hd => ⟨nofun, fun _ => ⟨hd ▸ Added.refl X d, fun _ => hd⟩⟩

/-- The first name of a file is linked to where nothing is that is to be kept. -/
theorem moves_linkOver
    (first : FsPath) (hdest : opts.dryRun = true ∨ Avoids d₀ dest S) :
  Moves m closed (Added ∅ d₀) (linkToFirst opts first dest) (fun _ => Kept S d₀) (Kept S d₀)
  := by
  unfold linkToFirst
  split
  · exact Moves.pure fun d hd => hd.kept S
  next hdry =>
  have hdest := hdest.resolve_left hdry
  apply (moves_createParent (stable_added ∅ d₀) (fun _ hd => hd.kept S) dest).bind
  intro _
  apply Moves.bind (Q := fun _ => Kept S d₀)
  · apply Moves.orIgnore
    apply Moves.removeFile
    · intro d d' hd hremove
      obtain ⟨l, inode, hl, -, -, rfl⟩ := removeFile_cases hremove
      exact (hd.kept S).unlink_place fun hmem => hdest l hmem (hd.mayName hl)
    · exact fun d msg hd => hd.kept S
  intro _
  apply Moves.orFail (R := fun _ => Kept S d₀)
  · apply Moves.hardLink
    · intro d d' hd hlink
      obtain ⟨-, -, dst, i, hi, -, -, -, -, -, hnone, rfl⟩ := hardLink_cases hlink
      exact hd.link hnone hi
    · exact fun d msg hd => hd
  · exact fun _ _ hd => hd
  · exact fun _ _ hd => hd

/-! ### Copies -/

theorem moves_copyRegular
    (hfiles : Files S d₀) (hdest : Avoids d₀ dest S) (hfree : Free d₀ (tmpSibling env dest))
    (hX : ∀ l, d₀.MayName false (tmpSibling env dest) l → l ∉ X) :
  Moves m closed (Added X d₀) (copyRegular env src dest) (fun _ => Kept S d₀) (Kept S d₀)
  := by
  apply (moves_createParent (stable_added X d₀) (fun _ hd => hd.kept S) dest).bind
  intro _
  apply Moves.bind (Q := fun r d => (r = .ok () → Kept S d₀ d) ∧ (r ≠ .ok () → Added X d₀ d))
  · apply (Moves.copyToTmp hfree hX).bind
    intro r
    cases r with
    | error msg => exact Moves.pure fun d hd => ⟨nofun, fun _ => hd.1⟩
    | ok u =>
        apply (Moves.renameTmp hfree hdest hfiles.ne_none).consequence
        · exact fun d hd => ⟨hd.1, hd.2 rfl⟩
        · exact fun _ _ hd => hd
        · exact fun _ hd => hd
  intro r
  cases r with
  | ok u => exact Moves.pure fun d hd => hd.1 rfl
  | error msg =>
      apply Moves.bind (Q := fun _ => Added X d₀)
      · apply (Moves.removeTmp hfree).consequence (fun d hd => hd.2 nofun) (fun _ _ hd => hd)
        exact fun _ hd => hd
      · intro _
        exact Moves.throw fun d hd => hd.kept S

theorem moves_copySymlink
    (hdest : Avoids d₀ dest S) :
  Moves m closed (Added X d₀) (copySymlink src dest) (fun _ => Kept S d₀) (Kept S d₀)
  := by
  apply Moves.bind (Q := fun _ => Added X d₀)
  · apply (Moves.readLink (stable_added X d₀)).orFail
    · exact fun _ _ hd => hd
    · exact fun _ _ hd => hd.kept S
  intro target
  apply Moves.bind (Q := fun _ => Kept S d₀)
  · apply Moves.orIgnore
    apply Moves.removeFile
    · intro d d' hd hremove
      obtain ⟨l, inode, hl, -, -, rfl⟩ := removeFile_cases hremove
      exact (hd.kept S).unlink_place fun hmem => hdest l hmem (hd.mayName hl)
    · exact fun d msg hd => hd.kept S
  intro _
  apply Moves.orFail (R := fun _ => Kept S d₀)
  · apply Moves.symlink
    · intro d d' hd hsymlink
      obtain ⟨l, inode, -, hnone, -, rfl⟩ := symlink_cases hsymlink
      exact hd.create hnone
    · exact fun d msg hd => hd
  · exact fun _ _ hd => hd
  · exact fun _ _ hd => hd

/-- No backup is made of what does not exist. -/
theorem moves_backup
    {E : Disk → Prop} :
  Moves m closed (fun d => Added X d₀ d ∧ (opts.backup = true → ¬ Present d dest))
    (backup opts dest) (fun _ => Added X d₀) E
  := by
  unfold backup
  split
  · next hbackup =>
    apply Moves.bind (Q := fun b d => Added X d₀ d ∧ b = false)
    · apply Moves.pathExists
      exact fun d hd => ⟨hd.1, Bool.eq_false_of_not_eq_true (hd.2 hbackup)⟩
    intro b
    cases b with
    | true => exact Moves.impossible fun d hd => Bool.noConfusion hd.2
    | false => exact Moves.pure fun d hd => hd.1
  · exact Moves.pure fun d hd => hd.1

end Links

/-! ### Parts that are watched -/

/-- What is started where the file system is `d₀` and keeps what is at the places `S` there. -/
theorem moves_fixed
    {m : Watch UInt8 FsReply Error (Endpoint Disk UInt8)} {D : Disk} {α : Type}
    {p : Session FsReply α} (hkept : Kept S D d₀)
    (h : Moves m closed (Added X d₀) p (fun _ => Kept S d₀) (Kept S d₀)) :
  Moves m closed (· = d₀) p (fun _ => Kept S D) (Kept S D)
  := by
  apply h.consequence
  · rintro d rfl
    exact Added.refl X d
  · exact fun _ _ hd => hkept.trans hd
  · exact fun _ hd => hkept.trans hd

theorem moves_linkToFirst
    {D : Disk} (first : FsPath) :
  Moves (spares S) closed (Kept S D) (linkToFirst opts first dest) (fun _ => Kept S D) (Kept S D)
  := by
  apply Moves.watched (φ := (Part.linkToFirst opts first dest).Spares S)
  · exact fun w h => h (Part.linkToFirst opts first dest) w (Prog.Visits.refl _ w)
  apply Moves.fixed
  rintro d₀ ⟨hkept, hcond⟩
  exact moves_fixed hkept (moves_linkOver first hcond)

/-- An entry that does not exist at the destination is copied. -/
theorem moves_transferEntry
    (hfiles : Files S d₀) (hdest : Avoids d₀ dest S)
    (hfree : info.isFile = true → Free d₀ (tmpSibling env dest))
    (hX : info.isFile = true → ∀ l, d₀.MayName false (tmpSibling env dest) l → l ∉ X) :
  Moves (spares S) closed
    (fun d => Added X d₀ d ∧ (opts.linkDest = [] → ¬ Present d dest))
    (transferEntry env opts src dest info st) (fun _ => Kept S d₀) (Kept S d₀)
  := by
  apply Moves.watched (φ := (Part.transferEntry env opts src dest info st).Spares S)
  · exact fun w h => h (Part.transferEntry env opts src dest info st) w (Prog.Visits.refl _ w)
  apply Moves.bind (Q := fun _ => Added X d₀)
  · apply moves_backup.consequence
    · rintro d ⟨⟨hd, hnew⟩, hcond⟩
      refine ⟨hd, fun hbackup => ?_⟩
      by_cases hld : opts.linkDest = []
      · exact hnew hld
      · exact hcond hbackup hld
    · exact fun _ _ hd => hd
    · exact fun _ hd => hd
  intro _
  split
  · apply (moves_copySymlink hdest).bind
    intro _
    exact Moves.pure fun _ hd => hd
  split
  · next hfile =>
    apply (moves_copyRegular hfiles hdest (hfree hfile) (hX hfile)).bind
    intro _
    apply (moves_whenever (Moves.orIgnore (Moves.copyXattrs (stable_kept S d₀)))).bind
    intro _
    apply (moves_applyFileMeta (stable_kept S d₀) opts dest info).bind
    intro _
    exact Moves.pure fun _ hd => hd
  · exact Moves.pure fun d hd => hd.kept S

/-- An entry that is not linked to another one leaves what exists at the destination alone. -/
theorem moves_copyUnlinked
    {D : Disk} (hignore : opts.ignoreExisting = true) (hfiles : Files S D) :
  Moves (spares S) closed (Kept S D) (copyUnlinked env opts src dest rel info st)
    (fun _ => Kept S D) (Kept S D)
  := by
  apply Moves.watched (φ := (Part.copyUnlinked env opts src dest rel info st).Spares S)
  · exact fun w h => h (Part.copyUnlinked env opts src dest rel info st) w (Prog.Visits.refl _ w)
  apply Moves.fixed
  rintro d₀ ⟨hkept, hcond⟩
  let X : Set Location := { l | opts.linkDest ≠ [] ∧ d₀.MayName false (linkTmp dest) l }
  have hfiles₀ := hfiles.kept hkept
  apply Moves.bind (Q := fun _ => (· = d₀))
  · exact Moves.symlinkMetadata fun _ hd => hd
  intro destMeta
  split
  · exact Moves.pure fun d hd => hd ▸ hkept
  apply Moves.bind (Q := fun b d => d = d₀ ∧ (b = false → ¬ Present d₀ dest))
  · rw [existsAlready, if_pos hignore]
    apply Moves.pathExists
    rintro d rfl
    refine ⟨rfl, fun hb hfound => ?_⟩
    cases hfound.symm.trans hb
  intro b
  split
  · exact Moves.pure fun d hd => hd.1 ▸ hkept
  next hb =>
  have hb : b = false := Bool.eq_false_of_not_eq_true hb
  split
  · exact Moves.pure fun d hd => hd.1 ▸ hkept
  apply Moves.consequence (P := fun d => ¬ Present d₀ dest ∧ d = d₀) ?_
    (fun d hd => ⟨hd.2 hb, hd.1⟩) (fun _ _ hd => hd) fun _ hd => hd
  apply Moves.assuming
  intro hnew
  by_cases hdry : opts.dryRun = true
  · apply (moves_linkFromDest_dry hdry).bind
    intro b
    split
    · exact Moves.pure fun d hd => hd ▸ hkept
    · exact Moves.pure fun d hd => hd ▸ hkept
  obtain ⟨hdest, hfree, hlink⟩ := (hcond.resolve_left hdry).resolve_left hnew
  apply Moves.bind
  · apply (moves_linkFromDest (Bool.eq_false_of_not_eq_true hdry) hfiles₀ hdest
      (fun h h' => (hlink h h').1) (X := X) fun h _ h' => ⟨h, h'⟩).consequence
    · exact fun _ hd => hd
    · exact fun _ _ hd => hd
    · exact fun _ hd => hkept.trans hd
  intro b
  split
  · next hb => exact Moves.pure fun d hd => hkept.trans (hd.1 hb)
  next hb =>
  apply (moves_transferEntry (X := X) hfiles₀ hdest hfree ?_).consequence
  · intro d hd
    obtain ⟨hadded, hsame⟩ := hd.2 (Bool.eq_false_of_not_eq_true hb)
    exact ⟨hadded, fun hld => hsame hld ▸ hnew⟩
  · exact fun _ _ hd => hkept.trans hd
  · exact fun _ hd => hkept.trans hd
  · intro hfile l hmay hX
    exact (hlink hfile hX.1).2 l hmay hX.2

/-- An entry is copied, and what exists at the destination is left alone. -/
theorem moves_copyEntry
    {D : Disk} (hignore : opts.ignoreExisting = true) (hfiles : Files S D) :
  Moves (spares S) closed (Kept S D) (copyEntry env opts src dest rel info st)
    (fun _ => Kept S D) (Kept S D)
  := by
  unfold copyEntry
  split
  · exact moves_copyUnlinked hignore hfiles
  · split
    · next first _ =>
      apply (moves_linkToFirst first).bind
      intro _
      exact Moves.pure fun _ hd => hd
    · exact moves_copyUnlinked hignore hfiles

/-! ### Runs -/

/-- What the copying keeps when existing files are ignored. -/
theorem carried_kept
    {c : Copying} {D : Disk} (hignore : c.opts.ignoreExisting = true) (hfiles : Files S D) :
  Carried (spares S) closed c (fun _ => Kept S D) (Kept S D)
  where
  stable _ := stable_kept S D
  keep _ _ _ hd := hd
  removeDir := by
    intro _ p d d' hd hremove
    obtain ⟨l, inode, -, hinode, hkind, -, -, rfl⟩ := removeDir_cases hremove
    apply hd.unlink_place
    intro hl
    obtain ⟨inode', data, hinode', hkind'⟩ := hfiles.kept hd l hl
    cases hinode.symm.trans hinode'
    cases hkind.symm.trans hkind'
  error _ _ hd := hd
  entry _ _ _ _ _ := by
    apply (moves_copyEntry hignore hfiles).consequence
    · exact fun _ hd => hd.1
    · exact fun _ _ hd => hd
    · exact fun _ hd => hd

theorem moves_runLocal
    {D : Disk} (hignore : opts.ignoreExisting = true) (hdelete : opts.delete = false)
    (hfiles : Files S D) (sources : List FsPath) (root : FsPath) :
  Moves (spares S) closed (Kept S D) (runLocal env opts sources root) (fun _ => Kept S D)
    (Kept S D)
  := by
  have hcarried : Carried (spares S) closed (copying env opts) (fun _ => Kept S D) (Kept S D) :=
    carried_kept hignore hfiles
  apply (hcarried.moves_runLocal hdelete sources root).consequence
  · exact fun _ hd => hd
  · rintro _ _ ⟨-, hd⟩
    exact hd
  · exact fun _ hd => hd

end Local
