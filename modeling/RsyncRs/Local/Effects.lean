import RsyncRs.Fs.Moves
import RsyncRs.Local.Copy

/-!
# What the steps of a copy do

Directories are made and the metadata of files are set without harm. A link or a copy is made
under a temporary name first.
-/

namespace Local

open Disk

variable {m : Watch UInt8 FsReply Error (Endpoint Disk UInt8)} {closed : Bool}
  {J E : Disk → Prop} {d d' : Disk} {opts : Options} {dest rel : FsPath} {info : Metadata}

/-! ### Directories and metadata -/

theorem moves_createParent
    (hJ : Stable J) (hE : ∀ d, J d → E d) (path : FsPath) :
  Moves m closed J (createParent path) (fun _ => J) E
  := by
  unfold createParent
  split
  · split
    · exact Moves.pure fun _ hd => hd
    · exact Moves.orFail (Moves.createDirAll hJ) (fun _ _ hd => hd) fun _ => hE
  · exact Moves.pure fun _ hd => hd

/-- What the call to make the directory of a file is answered, if it is made. -/
def parentMade (d : Disk) (path : FsPath) : Option (Except String Unit × Disk) :=
  match path.parent with
  | some parent => if parent = [] then some (.ok (), d) else d.answer (.createDirAll parent)
  | none => some (.ok (), d)

theorem parentMade_grows
    {r : Except String Unit} {path : FsPath} (h : parentMade d path = some (r, d')) :
  Grows d d'
  := by
  unfold parentMade at h
  split at h
  · split at h
    · cases h
      exact Grows.refl d
    · next parent _ _ =>
      simp only [answer] at h
      split at h
      · cases h
        exact (grows_createDirAll d parent).tick
      · cases h
        exact grows_tick d
  · cases h
    exact Grows.refl d

theorem moves_parentMade
    {d : Disk} (path : FsPath) :
  Moves m closed (· = d) (createParent path) (fun _ d' => parentMade d path = some (.ok (), d'))
    fun _ => True
  := by
  unfold createParent parentMade
  cases path.parent with
  | none => exact Moves.pure fun d' hd => by rw [hd]
  | some parent =>
      dsimp only
      split
      · exact Moves.pure fun d' hd => by rw [hd]
      · apply Moves.orFail (R := fun r d' => d.answer (.createDirAll parent) = some (r, d'))
        · exact Moves.answered
        · exact fun _ _ hd => hd
        · exact fun _ _ _ => trivial

/-- Whether or not the directory of a file can be made. -/
theorem moves_parentTried
    {d : Disk} (path : FsPath) :
  Moves m closed (· = d) (tryCreateParent path)
    (fun _ d' => ∃ r, parentMade d path = some (r, d')) E
  := by
  unfold tryCreateParent parentMade
  cases path.parent with
  | none => exact Moves.pure fun d' hd => ⟨.ok (), by rw [hd]⟩
  | some parent =>
      dsimp only
      split
      · exact Moves.pure fun d' hd => ⟨.ok (), by rw [hd]⟩
      · apply Moves.orIgnore
        apply Moves.answered.consequence (fun _ hd => hd)
        · exact fun r d' hd => ⟨r, hd⟩
        · exact fun _ hd => hd

theorem moves_tryCreateParent
    (hJ : Stable J) (path : FsPath) :
  Moves m closed J (tryCreateParent path) (fun _ => J) E
  := by
  unfold tryCreateParent
  split
  · split
    · exact Moves.pure fun _ hd => hd
    · exact Moves.orIgnore (Moves.createDirAll hJ)
  · exact Moves.pure fun _ hd => hd

theorem moves_whenever
    {b : Bool} {p : Session FsReply Unit} (h : Moves m closed J p (fun _ => J) E) :
  Moves m closed J (whenever b p) (fun _ => J) E
  := by
  unfold whenever
  split
  · exact h
  · exact Moves.pure fun _ hd => hd

theorem moves_applyFileMeta
    (hJ : Stable J) (opts : Options) (dest : FsPath) (info : Metadata) :
  Moves m closed J (applyFileMeta opts dest info) (fun _ => J) E
  := by
  apply (moves_whenever (Moves.orIgnore (Moves.setLinkTimes hJ))).bind
  intro _
  apply (moves_whenever (Moves.orIgnore (Moves.setPermissions hJ))).bind
  intro _
  exact moves_whenever (Moves.orIgnore (Moves.chown hJ))

theorem moves_applyDirMeta
    (hJ : Stable J) (opts : Options) (dest : FsPath) (info : Metadata) :
  Moves m closed J (applyDirMeta opts dest info) (fun _ => J) E
  := by
  unfold applyDirMeta
  split
  · exact Moves.pure fun _ hd => hd
  · apply Moves.bind (Moves.orIgnore (Moves.setLinkTimes hJ))
    intro _
    exact moves_whenever (Moves.orIgnore (Moves.setPermissions hJ))

/-! ### Directories to link to -/

/-- Nothing is linked when nothing is to be changed. -/
theorem moves_linkFirst_dry
    (hdry : opts.dryRun = true) (lds : List FsPath) :
  Moves m closed J (linkFirst opts dest rel info lds) (fun _ => J) E
  := by
  induction lds with
  | nil => exact Moves.pure fun _ hd => hd
  | cons ld lds ih =>
      apply Moves.bind (Q := fun _ => J)
      · exact Moves.symlinkMetadata fun _ hd => hd
      intro r
      cases r with
      | error msg => exact ih
      | ok info' =>
          dsimp only
          split
          · exact Moves.pure fun _ hd => hd
          · exact ih

theorem moves_linkFromDest_dry
    (hdry : opts.dryRun = true) :
  Moves m closed J (linkFromDest opts dest rel info) (fun _ => J) E
  := by
  unfold linkFromDest
  split
  · exact moves_linkFirst_dry hdry _
  · exact Moves.pure fun _ hd => hd

end Local
