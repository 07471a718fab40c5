import RsyncRs.Fs.Named
import RsyncRs.Fs.Substitute
import RsyncRs.Local.Effects

/-!
# Files that are left

The parts of a copy leave a regular file whose place they do not name, and to which nothing is
written under another name. A link that takes the place of a file leaves its content when what is
linked to has the same.
-/

namespace Local

open Disk

variable {m : Watch UInt8 FsReply Error (Endpoint Disk UInt8)} {closed : Bool} {d d₀ : Disk}
  {x : Location} {data : List UInt8} {opts : Options} {env : LocalEnv}
  {src dest first ldPath tmp : FsPath} {info : Metadata} {E : Disk → Prop}

/-- What is written to no file that is there is not written to the place of one. -/
theorem writesAside_of_file
    (hx : d.kindAt x = some (.file data))
    (h : ∀ y i, d.place tmp = some y → d.nodes y = some i → d.nodes x ≠ some i) :
  WritesAside d tmp x
  := by
  obtain ⟨-, i, hi, -⟩ := kindAt_ne_dir hx nofun
  refine fun y hy => ⟨?_, fun j => h y j hy⟩
  rintro rfl
  exact h x i hy hi hi

/-! ### Links -/

/-- A link takes the place of a file with the same content, or of none that is to be left. -/
theorem moves_linkToFirst_leaves
    (hx : d₀.kindAt x = some (.file data))
    (hdest : ∀ d₁, parentMade d₀ dest = some (.ok (), d₁) →
      d₁.lplace dest ≠ some x ∨ d₀.fileOf first = some (.file data)) :
  Moves m closed (· = d₀) (linkToFirst opts first dest)
    (fun _ d => d.kindAt x = some (.file data)) (fun _ => True)
  := by
  unfold linkToFirst
  split
  · exact Moves.pure fun _ hd => hd ▸ hx
  apply (moves_parentMade dest).bind
  intro _
  apply Moves.fixed
  intro d₁ hmade
  have hgrows := parentMade_grows hmade
  have hx₁ : d₁.dataAt x = some data := dataAt_eq_some_iff.mpr (hgrows.kindAt hx)
  have hsame := (hdest d₁ hmade).imp_right fun h => hgrows.fileOf h
  apply Moves.bind (Q := fun _ d => ∃ r, d₁.answer (.removeFile dest) = some (r, d))
  · apply Moves.orIgnore
    exact Moves.answered.consequence (fun _ hd => hd) (fun r _ hd => ⟨r, hd⟩) fun _ hd => hd
  intro _
  apply Moves.fixed
  rintro d₂ ⟨r, hremove⟩
  apply Moves.orFail (R := fun r d => d₂.answer (.hardLink first dest) = some (r, d))
  · exact Moves.answered
  · exact fun _ d hlink => dataAt_eq_some_iff.mp (dataAt_relinked hx₁ hsame hremove hlink)
  · exact fun _ _ _ => trivial

/-- What is renamed to a destination that is not to be left, or that has its content. -/
theorem moves_linkFrom_leaves
    (hx : d₀.kindAt x = some (.file data))
    (htmp : ∀ r d₁, parentMade d₀ dest = some (r, d₁) → d₁.lplace (linkTmp dest) ≠ some x)
    (hdest : ∀ r d₁, parentMade d₀ dest = some (r, d₁) →
      d₁.lplace dest ≠ some x ∨ d₀.fileOf ldPath = some (.file data))
    (hfile : IsFileAt d₀ ldPath) :
  Moves m closed (· = d₀) (linkFrom ldPath dest) (fun _ d => d.kindAt x = some (.file data)) E
  := by
  obtain ⟨held, hheld⟩ := hfile.fileOf
  apply (moves_parentTried dest).bind
  intro _
  apply Moves.fixed
  rintro d₁ ⟨r, hmade⟩
  have hgrows := parentMade_grows hmade
  have hx₁ : d₁.dataAt x = some data := dataAt_eq_some_iff.mpr (hgrows.kindAt hx)
  have hmay : MayHold d₁ ldPath held := .of_fileOf (hgrows.fileOf hheld)
  have hsame : d₁.lplace dest ≠ some x ∨ some data = some held := by
    apply (hdest r d₁ hmade).imp_right
    intro h
    cases h.symm.trans hheld
    rfl
  let X : Set Location := { l | d₁.lplace (linkTmp dest) = some l }
  have hx' : x ∉ X := htmp r d₁ hmade
  have hfinal : ∀ {d : Disk}, Leaving X x (some data) d₁ d → d.kindAt x = some (.file data) :=
    fun hd => dataAt_eq_some_iff.mp hd.data
  have hremove : ∀ {E : Disk → Prop}, Moves m closed (Leaving X x (some data) d₁)
      (Fs.orIgnore (Fs.removeFile (linkTmp dest)) >>= fun _ => (pure false : Session FsReply Bool))
      (fun _ d => d.kindAt x = some (.file data)) E := by
    intro E
    apply (Moves.clearTmp (fun _ hl => hl) hx').bind
    intro _
    exact Moves.pure fun _ hd => hfinal hd
  apply Moves.bind
  · apply (Moves.clearTmp_mayHold (fun _ hl => hl) hx').consequence
    · rintro d rfl
      exact ⟨Leaving.refl hx₁, hmay⟩
    · exact fun _ _ hd => hd
    · exact fun _ hd => hd
  intro _
  apply (Moves.linkHeld (fun _ hl => hl) hx').bind
  intro r
  cases r with
  | error msg => exact hremove.consequence (fun _ hd => hd.1) (fun _ _ hd => hd) fun _ hd => hd
  | ok u =>
      apply Moves.bind
      · apply (Moves.renameHeld (fun _ hl => hl) hx').consequence
        · exact fun _ hd => ⟨hd.1, hd.2 rfl⟩
        · exact fun _ _ hd => hd
        · exact fun _ hd => hd
      intro r
      cases r with
      | ok u => exact Moves.pure fun d hd => dataAt_eq_some_iff.mp (hd.1 rfl hsame)
      | error msg =>
          exact hremove.consequence (fun _ hd => hd.2 nofun) (fun _ _ hd => hd) fun _ hd => hd

/-! ### Copies -/

/-- A file is copied under a temporary name, and renamed. -/
theorem moves_copyRegular_leaves
    (hx : d₀.kindAt x = some (.file data))
    (hdest : ∀ d₁, parentMade d₀ dest = some (.ok (), d₁) → d₁.lplace dest ≠ some x)
    (htmp : ∀ d₁, parentMade d₀ dest = some (.ok (), d₁) →
      d₁.lplace (tmpSibling env dest) ≠ some x)
    (hwrite : ∀ d₁, parentMade d₀ dest = some (.ok (), d₁) →
      ∀ y i, d₁.place (tmpSibling env dest) = some y → d₁.nodes y = some i → d₁.nodes x ≠ some i) :
  Moves m closed (· = d₀) (copyRegular env src dest) (fun _ d => d.kindAt x = some (.file data))
    (fun _ => True)
  := by
  apply (moves_parentMade dest).bind
  intro _
  apply Moves.fixed
  intro d₁ hmade
  have hx₁ := (parentMade_grows hmade).kindAt hx
  have hdata₁ : d₁.dataAt x = some data := dataAt_eq_some_iff.mpr hx₁
  have hwrite₁ := writesAside_of_file hx₁ (hwrite d₁ hmade)
  let X : Set Location := { l | d₁.lplace (tmpSibling env dest) = some l }
  have htmp₁ : x ∉ X := htmp d₁ hmade
  apply Moves.bind (Q := fun r d => (r = .ok () → d.kindAt x = some (.file data)) ∧
    (r ≠ .ok () → Leaving X x (some data) d₁ d))
  · apply Moves.bind (Q := fun r d => Leaving X x (some data) d₁ d ∧ (r = .ok () →
      NoDirAt d (tmpSibling env dest)))
    · apply Moves.copyFile
      · rintro d d' n r rfl hcopy _
        obtain ⟨_, _, dst, _, _, -, -, hdst, -, -, hwritten⟩ := copyFile_cases hcopy
        obtain ⟨hne, hother⟩ := hwrite₁ dst hdst
        have hspared : Leaving X x (some data) d d' :=
          (Leaving.refl hdata₁).writeAt hne hother hwritten
        have hnodir : NoDirAt d' (tmpSibling env dest) := noDirAt_written hdst hwritten
        exact ⟨hspared.tick, fun _ => hnodir⟩
      · rintro d msg rfl
        exact ⟨(Leaving.refl hdata₁).tick, nofun⟩
    intro r
    cases r with
    | error msg => exact Moves.pure fun d hd => ⟨nofun, fun _ => hd.1⟩
    | ok u =>
        apply Moves.rename
        · rintro d d' ⟨hd, hnodir⟩ hrename
          refine ⟨fun _ => ?_, fun h => absurd rfl h⟩
          obtain ⟨y, inode', dst, hy, hinode', hdst, hyRoot, hdstRoot, hcases⟩ :=
            rename_cases hrename
          have hy' : y ∈ X := (hd.names false _ y hy).elim id id
          have hne : x ≠ y := fun heq => htmp₁ (heq ▸ hy')
          have hne' : x ≠ dst := by
            rintro rfl
            exact (hd.names false dest x hdst).elim (hdest d₁ hmade) htmp₁
          rcases hcases with ⟨-, rfl⟩ | ⟨-, -, ⟨-, rfl⟩ | ⟨hdir, -⟩⟩
          · exact dataAt_eq_some_iff.mp hd.data
          · exact (kindAt_moveFile_of_ne hne hne').trans (dataAt_eq_some_iff.mp hd.data)
          · obtain ⟨l, inode, hl, hinode, hkind⟩ := hnodir rfl
            cases hl.symm.trans hy
            cases hinode.symm.trans hinode'
            exact absurd hdir hkind
        · exact fun d msg hd => ⟨nofun, fun _ => hd.1.tick⟩
  intro r
  cases r with
  | ok u => exact Moves.pure fun d hd => hd.1 rfl
  | error msg =>
      apply Moves.bind (Q := fun _ => Leaving X x (some data) d₁)
      · apply (Moves.clearTmp (fun _ hl => hl) htmp₁).consequence (fun _ hd => hd.2 nofun)
          (fun _ _ hd => hd)
        exact fun _ hd => hd
      · intro _
        exact Moves.throw fun _ _ => trivial

theorem moves_copySymlink_leaves
    (hx : d₀.kindAt x = some (.file data)) (hdest : d₀.lplace dest ≠ some x) :
  Moves m closed (· = d₀) (copySymlink src dest) (fun _ d => d.kindAt x = some (.file data))
    (fun _ => True)
  := by
  apply Moves.bind (Q := fun _ d => d = d₀.tick)
  · apply Moves.orFail (R := fun _ d => d = d₀.tick)
    · apply Moves.call
      rintro d r d' rfl hanswer
      exact (attempt_cases hanswer).1
    · exact fun _ _ hd => hd
    · exact fun _ _ _ => trivial
  intro target
  apply Moves.bind (Q := fun _ d => d.kindAt x = some (.file data))
  · apply Moves.orIgnore
    apply Moves.removeFile
    · rintro d d' rfl hremove
      obtain ⟨l, inode, hl, -, -, rfl⟩ := removeFile_cases hremove
      have hne : x ≠ l := by
        rintro rfl
        exact hdest hl
      have hleft : (d₀.tick.unlink (· = l)).kindAt x = some (.file data) :=
        ((ChangedAt.unlink d₀.tick l).kindAt_eq hne).trans hx
      exact hleft
    · rintro d msg rfl
      exact hx
  intro _
  apply Moves.orFail (R := fun _ d => d.kindAt x = some (.file data))
  · apply Moves.symlink
    · intro d d' hd hsymlink
      obtain ⟨l, inode, -, hnone, -, rfl⟩ := symlink_cases hsymlink
      have hne : x ≠ l := by
        rintro rfl
        rw [kindAt_eq_none_iff.mpr hnone] at hd
        cases hd
      have hleft : (d.create l inode).kindAt x = some (.file data) :=
        ((ChangedAt.create d l inode).kindAt_eq hne).trans hd
      exact hleft
    · exact fun d msg hd => hd
  · exact fun _ _ hd => hd
  · exact fun _ _ _ => trivial

end Local
