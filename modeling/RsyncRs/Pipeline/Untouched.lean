import RsyncRs.Fs.Named
import RsyncRs.Pipeline.Receiver

/-!
# Files that a receiver leaves

What a regular file holds is left by a link, a copy and a removal that do not fall on its place,
and by what is written to another file.
-/

namespace Receiver

open Disk

variable {m : Watch UInt8 FsReply Error (Endpoint Disk UInt8)} {closed : Bool} {d d₁ : Disk}
  {x : Location} {c : Option (List UInt8)} {args : ReceiverArgs} {fi : FileInfo}
  {dest ldPath leader path tmp : FsPath} {newData : List UInt8} {E : Disk → Prop}

/-! ### When a place is left -/

/-- The file system when the directory of a file has been made, as far as that is possible. -/
def withParent (d : Disk) (path : FsPath) : Disk :=
  match path.parent with
  | some parent => if d.fault d.calls = none then (d.createDirAll parent).1.tick else d.tick
  | none => d

/-- No link to the file at `ldPath` is put in the place of the destination. -/
def Unlinked (ldPath dest : FsPath) (d : Disk) : Prop :=
  ∀ r d₁ d₂, d.answer (.removeFile (linkTmp dest)) = some (r, d₁) →
    d₁.answer (.hardLink ldPath (linkTmp dest)) = some (.ok (), d₂) →
      ∃ msg d₃, d₂.answer (.rename (linkTmp dest) dest) = some (.error msg, d₃)

/-- A link that is put in the place of the destination leaves what is at the place `x`: it has
another place, or the file that is linked to holds the same, or the link is not made. -/
def LinkSpares (ldPath dest : FsPath) (x : Location) (d : Disk) : Prop :=
  (withParent d dest).lplace (linkTmp dest) ≠ some x ∧
    ((withParent d dest).lplace dest ≠ some x ∨
      (∃ data, d.dataAt x = some data ∧ d.fileOf ldPath = some (.file data)) ∨
      Unlinked ldPath dest (withParent d dest))

/-- The temporary file is not written or not renamed. -/
def Uninstalled (tmp dest : FsPath) (newData : List UInt8) (d : Disk) : Prop :=
  ∀ d₁ d₂, d.answer (.createFile tmp) = some (.ok (), d₁) →
    d₁.answer (.writeFile tmp newData) = some (.ok (), d₂) →
      ∃ msg d₃, d₂.answer (.rename tmp dest) = some (.error msg, d₃)

/-- The file cannot be opened, or what is written to it is not written to the place `x`. -/
def OpensAside (path : FsPath) (x : Location) (d : Disk) : Prop :=
  WritesAside d path x ∨ ∃ msg d₁, d.answer (.createFile path) = some (.error msg, d₁)

/-- A file that is put at the destination leaves what is at the place `x`. -/
def InstallSpares (args : ReceiverArgs) (dest : FsPath) (newData : List UInt8) (x : Location)
    (d : Disk) : Prop :=
  if args.inplace then
    OpensAside dest x (withParent d dest)
  else
    OpensAside (tmpPath args dest) x (withParent d dest) ∧
      ((withParent d dest).lplace dest ≠ some x ∨
        Uninstalled (tmpPath args dest) dest newData (withParent d dest))

/-- A symbolic link takes the place of no regular file at `x`. -/
def SymlinkSpares (path : FsPath) (x : Location) (d : Disk) : Prop :=
  d.lplace path = some x → d.dataAt x = none

/-- A later name of a linked file has another place than `x`, or it is linked to a file that holds
the same. -/
def FollowerSpares (leader path : FsPath) (x : Location) (d : Disk) : Prop :=
  (withParent d path).lplace path ≠ some x ∧ WritesAside (withParent d path) path x ∨
    ∃ data r d₁ d₂, d.dataAt x = some data ∧ d.fileOf leader = some (.file data) ∧
      (withParent d path).answer (.removeFile path) = some (r, d₁) ∧
      d₁.answer (.hardLink leader path) = some (.ok (), d₂)

/-! ### Directories -/

theorem grows_withParent
    (d : Disk) (path : FsPath) :
  Grows d (withParent d path)
  := by
  unfold withParent
  split
  · split
    · exact (grows_createDirAll d _).tick
    · exact grows_tick d
  · exact Grows.refl d

theorem dataAt_withParent
    (d : Disk) (path : FsPath) (x : Location) :
  (withParent d path).dataAt x = d.dataAt x
  := by
  have hstable := stable_dataAt x (d.dataAt x)
  unfold withParent
  split
  · next parent _ =>
    split
    · exact hstable.tick _ (hstable.dirs d parent rfl)
    · rfl
  · rfl

theorem moves_makeParent
    {m : Watch UInt8 FsReply Error (Endpoint Disk UInt8)} {E : Disk → Prop} (d : Disk)
    (path : FsPath) :
  Moves m closed (· = d) (createParent path) (fun _ d' => d' = withParent d path) E
  := by
  unfold createParent withParent
  cases path.parent with
  | none => exact Moves.pure fun _ hd => hd
  | some parent =>
      apply Moves.orIgnore
      apply Moves.call
      rintro d r d' rfl hanswer
      simp only [answer] at hanswer
      split at hanswer
      · next hfault =>
        cases hanswer
        exact (if_pos hfault).symm
      · next n hfault =>
        cases hanswer
        have hfails : d.fault d.calls ≠ none := by
          rw [hfault]
          rintro ⟨⟩
        exact (if_neg hfails).symm

/-! ### Links -/

theorem moves_linkTo_leaves
    (hx : d.dataAt x = c) (hfile : IsFileAt d ldPath) (h : LinkSpares ldPath dest x d) :
  Moves m closed (· = d) (linkTo ldPath dest) (fun _ d' => d'.dataAt x = c) E
  := by
  obtain ⟨htmp, hdest⟩ := h
  obtain ⟨held, hheld⟩ := hfile.fileOf
  have hgrows := grows_withParent d dest
  have hmay : MayHold (withParent d dest) ldPath held := .of_fileOf (hgrows.fileOf hheld)
  have hx₀ := (dataAt_withParent d dest x).trans hx
  apply (moves_makeParent d dest).bind
  intro _
  generalize withParent d dest = d₀ at htmp hdest hgrows hmay hx₀ ⊢
  let X : Set Location := { l | d₀.lplace (linkTmp dest) = some l }
  have hX : ∀ l, d₀.lplace (linkTmp dest) = some l → l ∈ X := fun _ hl => hl
  have hxX : x ∉ X := htmp
  have hremoved : Moves m closed (· = d₀) (Fs.orIgnore (Fs.removeFile (linkTmp dest)))
      (fun _ d₁ => ∃ r, d₀.answer (.removeFile (linkTmp dest)) = some (r, d₁)) E := by
    apply Moves.orIgnore
    exact Moves.answered.consequence (fun _ hd => hd) (fun r _ hd => ⟨r, hd⟩) fun _ hd => hd
  apply Moves.bind (Q := fun _ d₁ => (∃ r, d₀.answer (.removeFile (linkTmp dest)) = some (r, d₁)) ∧
    Leaving X x c d₀ d₁ ∧ MayHold d₁ ldPath held)
  · apply (hremoved.and (Moves.clearTmp_mayHold hX hxX)).consequence
    · rintro _ rfl
      exact ⟨rfl, Leaving.refl hx₀, hmay⟩
    · exact fun _ _ hd => hd
    · exact fun _ hd => hd
  intro _
  apply Moves.fixed
  rintro d₁ ⟨⟨r, hremove⟩, hsparing, hmay₁⟩
  apply Moves.bind (Q := fun r d₂ => d₁.answer (.hardLink ldPath (linkTmp dest)) = some (r, d₂) ∧
    Leaving X x c d₀ d₂ ∧ (r = .ok () → MayHold d₂ (linkTmp dest) held))
  · apply (Moves.answered.and (Moves.linkHeld hX hxX)).consequence
    · rintro _ rfl
      exact ⟨rfl, hsparing, hmay₁⟩
    · exact fun _ _ hd => hd
    · exact fun _ hd => hd
  intro r
  cases r with
  | error msg => exact Moves.pure fun _ hd => hd.2.1.data
  | ok u =>
      apply Moves.fixed
      rintro d₂ ⟨hlink, hsparing₂, hmay₂⟩
      apply Moves.bind
      · apply (Moves.answered.and (Moves.renameHeld hX hxX)).consequence
        · rintro _ rfl
          exact ⟨rfl, hsparing₂, hmay₂ rfl⟩
        · exact fun _ _ hd => hd
        · exact fun _ hd => hd
      intro r
      cases r with
      | ok u =>
          apply Moves.pure
          rintro d₃ ⟨hrename, hleft, -⟩
          rcases hdest with hother | ⟨data, hdata, hsame⟩ | hunlinked
          · exact hleft rfl (Or.inl hother)
          · cases hsame.symm.trans hheld
            exact hleft rfl (Or.inr (hx.symm.trans hdata))
          · obtain ⟨msg, _, herror⟩ := hunlinked r d₁ d₂ hremove hlink
            cases hrename.symm.trans herror
      | error msg =>
          apply Moves.bind (Q := fun _ => Leaving X x c d₀)
          · apply (Moves.clearTmp hX hxX).consequence (fun _ hd => hd.2.2 nofun)
            · exact fun _ _ hd => hd
            · exact fun _ hd => hd
          intro _
          exact Moves.pure fun _ hd => hd.data

/-! ### Files that are written -/

theorem moves_createFile_aside
    (hx : d.dataAt x = c) (h : OpensAside path x d) :
  Moves m closed (· = d) (Fs.orFail (Fs.createFile path))
    (fun _ d' => d.answer (.createFile path) = some (.ok (), d') ∧ Leaving ∅ x c d d' ∧
      WritesAside d' path x) fun d' => d'.dataAt x = c
  := by
  apply Moves.orFail Moves.answered
  · intro _ d' hanswer
    rcases modify_cases (d := d) (e := d.createFile path) hanswer with
      ⟨d₁, hcreate, -, rfl⟩ | ⟨⟨_, herror⟩, -⟩
    · rcases h with haside | ⟨_, _, herror⟩
      · obtain ⟨l, hl, hwrite⟩ := createFile_cases hcreate
        obtain ⟨hne, hother⟩ := haside l hl
        have hnext : WritesAside d₁ path x := haside.writeAt hl hwrite
        exact ⟨hanswer, ((Leaving.refl hx).writeAt hne hother hwrite).tick, hnext⟩
      · cases hanswer.symm.trans herror
    · cases herror
  · intro msg d' hanswer
    rcases modify_cases (d := d) (e := d.createFile path) hanswer with
      ⟨_, _, hok, -⟩ | ⟨-, rfl⟩
    · cases hok
    · exact hx

theorem moves_writeFile_aside
    {d₀ : Disk} (hsparing : Leaving ∅ x c d₀ d) (h : WritesAside d path x) :
  Moves m closed (· = d) (Fs.orFail (Fs.writeFile path newData))
    (fun _ d' => d.answer (.writeFile path newData) = some (.ok (), d') ∧ Leaving ∅ x c d₀ d' ∧
      WritesAside d' path x ∧ NoDirAt d' path) fun d' => d'.dataAt x = c
  := by
  have hwritten : ∀ {n d₁}, d.writeFile n path newData = some d₁ →
      Leaving ∅ x c d₀ d₁ ∧ WritesAside d₁ path x ∧ NoDirAt d₁ path := by
    intro n d₁ hwritten
    obtain ⟨l, written, hl, -, -, hwrite⟩ := writeFile_cases hwritten
    obtain ⟨hne, hother⟩ := h l hl
    exact ⟨hsparing.writeAt hne hother hwrite, h.writeAt hl hwrite, noDirAt_written hl hwrite⟩
  apply Moves.orFail Moves.answered
  · intro _ d' hanswer
    have hpart : d.modifyPart (fun n => d.writeFile n path newData) = some (.ok (), d') := hanswer
    rcases modifyPart_cases hpart with ⟨n, d₁, hwrite, -, rfl⟩ | ⟨⟨_, herror⟩, -⟩
    · obtain ⟨hnext, haside, hnodir⟩ := hwritten hwrite
      exact ⟨hanswer, hnext.tick, haside, hnodir⟩
    · cases herror
  · intro msg d' hanswer
    have hpart : d.modifyPart (fun n => d.writeFile n path newData) = some (.error msg, d') :=
      hanswer
    rcases modifyPart_cases hpart with ⟨n, d₁, hwrite, -, rfl⟩ | ⟨-, rfl⟩
    · exact (hwritten hwrite).1.data
    · exact hsparing.data

/-- A temporary file is renamed, and does not fall on the place. -/
theorem moves_renameTmp_leaves
    {d₀ : Disk} (hsparing : Leaving ∅ x c d₀ d) (h : WritesAside d tmp x) (hnodir : NoDirAt d tmp)
    (hdest : d₀.lplace dest ≠ some x ∨
      ∃ msg d', d.answer (.rename tmp dest) = some (.error msg, d')) :
  Moves m closed (· = d) (Fs.rename tmp dest) (fun _ d' => d'.dataAt x = c) E
  := by
  apply Moves.call
  rintro d r d' rfl hanswer
  rcases modify_cases (d := d) (e := d.rename tmp dest) hanswer with
    ⟨d₁, hrename, rfl, rfl⟩ | ⟨-, rfl⟩
  · rcases hdest with hother | ⟨_, _, herror⟩
    · obtain ⟨src, inode, dst, hsrc, hinode, hdst, -, -, hcases⟩ := rename_cases hrename
      have hne : x ≠ dst := by
        rintro rfl
        exact hother ((hsparing.names false dest x hdst).resolve_right id)
      rcases hcases with ⟨-, rfl⟩ | ⟨-, -, ⟨-, rfl⟩ | ⟨hdir, -⟩⟩
      · exact hsparing.data
      · have hmoved : (d.moveFile src dst).dataAt x = d.dataAt x := by
          apply dataAt_moveFile ?_ hne
          rintro rfl
          exact h.dataAt_eq_none hsrc
        exact hmoved.trans hsparing.data
      · obtain ⟨l, inode', hl, hinode', hkind⟩ := hnodir
        cases hl.symm.trans hsrc
        cases hinode.symm.trans hinode'
        exact absurd hdir hkind
    · cases hanswer.symm.trans herror
  · exact hsparing.data

theorem moves_writeContent_leaves
    (hx : d.dataAt x = c)
    (h : if args.inplace then OpensAside dest x d
      else OpensAside (tmpPath args dest) x d ∧
        (d.lplace dest ≠ some x ∨ Uninstalled (tmpPath args dest) dest newData d)) :
  Moves m closed (· = d) (writeContent args dest newData) (fun _ d' => d'.dataAt x = c)
    fun d' => d'.dataAt x = c
  := by
  unfold writeContent
  split
  · next hinplace =>
    rw [if_pos hinplace] at h
    apply (moves_createFile_aside hx h).bind
    intro _
    apply Moves.fixed
    rintro d₁ ⟨-, hsparing, haside⟩
    apply (moves_writeFile_aside hsparing haside).consequence (fun _ hd => hd)
    · exact fun _ _ hd => hd.2.1.data
    · exact fun _ hd => hd
  · next hinplace =>
    rw [if_neg hinplace] at h
    obtain ⟨hopens, hdest⟩ := h
    apply (moves_createFile_aside hx hopens).bind
    intro _
    apply Moves.fixed
    rintro d₁ ⟨hcreate, hsparing₁, haside₁⟩
    apply (moves_writeFile_aside hsparing₁ haside₁).bind
    intro _
    apply Moves.fixed
    rintro d₂ ⟨hwrite, hsparing₂, haside₂, hnodir⟩
    apply (moves_renameTmp_leaves hsparing₂ haside₂ hnodir ?_).orFail
    · exact fun _ _ hd => hd
    · exact fun _ _ hd => hd
    · exact hdest.imp_right fun huninstalled => huninstalled d₁ d₂ hcreate hwrite

theorem moves_install_leaves
    (hx : d.dataAt x = c) (h : InstallSpares args dest newData x d) :
  Moves m closed (· = d) (install args fi dest newData) (fun _ d' => d'.dataAt x = c)
    fun d' => d'.dataAt x = c
  := by
  have hstable := stable_dataAt x c
  apply (moves_makeParent d dest).bind
  intro _
  apply Moves.bind (Q := fun _ d' => d' = withParent d dest)
  · exact Moves.metadata fun _ hd => hd
  intro _
  apply (moves_writeContent_leaves ((dataAt_withParent d dest x).trans hx) h).bind
  intro _
  apply Moves.bind (Q := fun _ d' => d'.dataAt x = c)
  · exact (Moves.setPermissions hstable).orFail (fun _ _ hd => hd) fun _ _ hd => hd
  intro _
  exact (Moves.setTimes hstable).orFail (fun _ _ hd => hd) fun _ _ hd => hd

/-! ### Links of the list -/

theorem moves_makeSymlink_leaves
    (hx : d.dataAt x = c)
    (h : fi.isSymlink = true → SymlinkSpares (args.destDir.join fi.path) x d) :
  Moves m closed (· = d) (makeSymlink args () fi) (fun _ d' => d'.dataAt x = c) E
  := by
  unfold makeSymlink
  split
  · next hlink =>
    apply Moves.bind (Q := fun _ d' => d'.dataAt x = c)
    · apply Moves.orIgnore
      apply Moves.removeFile
      · rintro d d' rfl hremove
        obtain ⟨l, inode, hl, -, -, rfl⟩ := removeFile_cases hremove
        have hleft : (d.unlink (· = l)).dataAt x = d.dataAt x := by
          apply dataAt_unlink
          rintro rfl
          exact h hlink hl
        exact hleft.trans hx
      · rintro _ msg rfl
        exact hx
    intro _
    apply Moves.orIgnore
    apply Moves.symlink
    · intro d₁ d' hd hsymlink
      obtain ⟨l, inode, -, hnone, hkind, rfl⟩ := symlink_cases hsymlink
      have hleft : (d₁.create l inode).dataAt x = d₁.dataAt x := by
        apply dataAt_create hnone
        intro data
        rw [hkind]
        rintro ⟨⟩
      exact hleft.trans hd
    · exact fun _ _ hd => hd
  · exact Moves.pure fun _ hd => hd ▸ hx

/-- What is under the name of a follower is removed, and the follower leads elsewhere. -/
theorem moves_removeFollower_leaves
    (hx : d.dataAt x = c) (hother : d.lplace path ≠ some x) (haside : WritesAside d path x) :
  Moves m closed (· = d) (Fs.orIgnore (Fs.removeFile path))
    (fun _ d' => (d'.dataAt x = c ∧ d'.lplace path ≠ some x) ∧ WritesAside d' path x) E
  := by
  apply Moves.orIgnore
  apply Moves.removeFile
  · rintro d d' rfl hremove
    obtain ⟨l, inode, hl, hinode, hkind, rfl⟩ := removeFile_cases hremove
    have hne : x ≠ l := by
      rintro rfl
      exact hother hl
    have hleft : (d.unlink (· = l)).dataAt x = c := ((ChangedAt.unlink d l).dataAt_eq hne).trans hx
    have hnamed : (d.unlink (· = l)).lplace path ≠ some x :=
      fun hnow => hother (resolve_cleared hinode hkind hnow hne)
    have hnext : WritesAside (d.unlink (· = l)) path x := .unlink hne hl hinode hkind
    exact ⟨⟨hleft, hnamed⟩, hnext⟩
  · rintro d msg rfl
    exact ⟨⟨hx, hother⟩, haside⟩

theorem moves_makeHardLink_leaves
    (hx : d.dataAt x = c)
    (h : ∀ first, leaderOf args fi = some first →
      FollowerSpares (args.destDir.join first.path) (args.destDir.join fi.path) x d) :
  Moves m closed (· = d) (makeHardLink args () fi) (fun _ d' => d'.dataAt x = c) E
  := by
  unfold makeHardLink
  cases hleader : leaderOf args fi with
  | none => exact Moves.pure fun _ hd => hd ▸ hx
  | some first =>
      have hx₀ := (dataAt_withParent d (args.destDir.join fi.path) x).trans hx
      apply (moves_makeParent d _).bind
      intro _
      rcases h first hleader with ⟨hother, haside⟩ | ⟨data, r, d₁, d₂, hdata, hsame, hremove, hlink⟩
      · apply (moves_removeFollower_leaves hx₀ hother haside).bind
        intro _
        apply Moves.bind (Q := fun r d' => d'.dataAt x = c ∧
          (r ≠ .ok () → WritesAside d' (args.destDir.join fi.path) x))
        · apply Moves.hardLink
          · rintro d₁ d' ⟨⟨hd, hnamed⟩, -⟩ hlink
            obtain ⟨_, _, dst, i, hi, -, -, hdst, -, -, -, rfl⟩ := hardLink_cases hlink
            have hne : x ≠ dst := by
              rintro rfl
              exact hnamed hdst
            have hleft : (d₁.link dst i hi).dataAt x = c :=
              ((ChangedAt.link d₁ dst i hi).dataAt_eq hne).trans hd
            exact ⟨hleft, fun h => absurd rfl h⟩
          · exact fun _ _ hd => ⟨hd.1.1, fun _ => hd.2⟩
        intro r
        cases r with
        | ok u => exact Moves.pure fun _ hd => hd.1
        | error msg =>
            apply Moves.orIgnore
            apply Moves.copyFile
            · rintro d₁ d' n r ⟨hd, haside₁⟩ hcopy _
              obtain ⟨_, _, dst, _, _, -, -, hdst, -, -, hwrite⟩ := copyFile_cases hcopy
              obtain ⟨hne, helse⟩ := haside₁ nofun dst hdst
              exact (dataAt_writeAt hne helse hwrite).trans hd
            · exact fun _ _ hd => hd.1
      · have hsame₀ := (grows_withParent d (args.destDir.join fi.path)).fileOf hsame
        have hx₁ := (dataAt_withParent d (args.destDir.join fi.path) x).trans hdata
        apply Moves.bind (Q := fun _ d' => d' = d₁)
        · apply Moves.orIgnore
          apply Moves.answered.consequence (fun _ hd => hd) ?_ fun _ hd => hd
          intro r' d' hanswer
          cases hremove.symm.trans hanswer
          rfl
        intro _
        apply Moves.bind (Q := fun r d' => r = .ok () ∧ d' = d₂)
        · apply Moves.answered.consequence (fun _ hd => hd) ?_ fun _ hd => hd
          intro r' d' hanswer
          cases hlink.symm.trans hanswer
          exact ⟨rfl, rfl⟩
        intro r
        cases r with
        | ok u =>
            apply Moves.pure
            rintro _ ⟨-, rfl⟩
            exact (dataAt_relinked hx₁ (Or.inr hsame₀) hremove hlink).trans (hdata.symm.trans hx)
        | error msg => exact Moves.impossible fun _ hd => by cases hd.1

end Receiver
