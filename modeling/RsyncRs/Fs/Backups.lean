import RsyncRs.Fs.Substitute
import RsyncRs.Fs.Temporary

/-!
# Files and their backups

Each of some files has a place for its backup. Nothing is lost as long as what a file held is at
its own place or at that of its backup.
-/

/-- Some files of a file system, and the places of their backups. -/
structure Backups where
  before : Disk
  files : Set Location
  place : Location → Location
  regular : Disk.Files files before

namespace Backups

open Disk

variable {b : Backups} {d d' : Disk} {φ : Location → Prop} {l x : Location}

/-- The place `x` holds what was at the place `l`. -/
def Holds (b : Backups) (d : Disk) (l x : Location) : Prop :=
  d.kindAt x = b.before.kindAt l

/-- What was at the place `l` is at that place or at the one of its backup, where `φ` is true. -/
def HeldAt (b : Backups) (d : Disk) (φ : Location → Prop) (l : Location) : Prop :=
  ∃ x, (x = l ∨ x = b.place l) ∧ b.Holds d l x ∧ φ x

/-- What each file held is at its place or at that of its backup. -/
def Safe (b : Backups) (d : Disk) : Prop :=
  ∀ l ∈ b.files, b.HeldAt d (fun _ => True) l

/-- What a file held is the content of a regular file. -/
theorem before_file
    (hl : l ∈ b.files) :
  ∃ data, b.before.kindAt l = some (.file data)
  := by
  obtain ⟨inode, data, hinode, hdata⟩ := b.regular l hl
  exact ⟨data, by rw [kindAt, hinode, Option.map_some, hdata]⟩

theorem Holds.file
    (h : b.Holds d l x) (hl : l ∈ b.files) :
  ∃ i data, x ≠ [] ∧ d.nodes x = some i ∧ (d.inodes i).kind = .file data ∧
    b.before.kindAt l = some (.file data)
  := by
  obtain ⟨data, hbefore⟩ := before_file hl
  have hx : d.kindAt x = some (.file data) := h.trans hbefore
  obtain ⟨hroot, i, hi, hdata⟩ := kindAt_ne_dir hx nofun
  exact ⟨i, data, hroot, hi, hdata, hbefore⟩

theorem safe_before
    (b : Backups) :
  b.Safe b.before
  := fun l _ => ⟨l, Or.inl rfl, rfl, trivial⟩

theorem Holds.kept
    {S : Set Location} (h : b.Holds d l x) (hl : l ∈ b.files) (hx : x ∈ S)
    (hkept : Kept S d d') :
  b.Holds d' l x
  := by
  obtain ⟨i, data, hroot, hi, hdata, hbefore⟩ := h.file hl
  have hkind := h.trans hbefore
  exact (hkept.kindAt hx hkind).trans hbefore.symm

theorem Safe.grows
    (h : b.Safe d) (hgrows : Grows d d') :
  b.Safe d'
  := by
  intro l hl
  obtain ⟨x, hx, hholds, -⟩ := h l hl
  exact ⟨x, hx, hholds.kept hl (Set.mem_singleton x) (Kept.of_grows {x} hgrows), trivial⟩

theorem stable_safe
    (b : Backups) :
  Stable b.Safe
  := Stable.of_grows fun _ _ hd hgrows => hd.grows hgrows

/-! ### Backups that are made -/

variable {p q : FsPath} {y : Location}

/-- What is not below one of the places of a renaming stays. -/
theorem Holds.renamed
    (h : b.Holds d l x) (hl : l ∈ b.files) (hrename : d.rename p q = some d')
    (hx : ∀ y, d.lplace p = some y ∨ d.lplace q = some y → ¬ y <+: x) :
  b.Holds d' l x
  := by
  obtain ⟨i, data, hroot, hi, hdata, hbefore⟩ := h.file hl
  obtain ⟨src, inode, dst, hsrc, -, hdst, -, -, hcases⟩ := rename_cases hrename
  have hnotSrc := hx src (Or.inl hsrc)
  have hnotDst := hx dst (Or.inr hdst)
  have hnodes : d'.nodes x = some i ∧ (d'.inodes i).kind = (d.inodes i).kind := by
    rcases hcases with ⟨-, rfl⟩ | ⟨-, -, ⟨-, rfl⟩ | ⟨-, -, rfl⟩⟩
    · exact ⟨hi, rfl⟩
    · have hne : x ≠ dst := fun heq => hnotDst (heq ▸ List.prefix_rfl)
      have hne' : x ≠ src := fun heq => hnotSrc (heq ▸ List.prefix_rfl)
      exact ⟨by rw [moveFile_nodes, if_neg hne, if_neg hne', hi], rfl⟩
    · exact ⟨by rw [moveDir_nodes, if_neg hnotDst, if_neg hnotSrc, hi], rfl⟩
  rw [Holds, kindAt_of_nodes hroot hnodes.1, hnodes.2, hdata, hbefore]

/-- A file that is renamed is at the other place. -/
theorem Holds.moved
    (h : b.Holds d l x) (hl : l ∈ b.files) (hrename : d.rename p q = some d')
    (hp : d.lplace p = some x) (hq : d.lplace q = some y) :
  b.Holds d' l y
  := by
  obtain ⟨i, data, hroot, hi, hdata, hbefore⟩ := h.file hl
  obtain ⟨src, inode, dst, hsrc, hinode, hdst, -, hdstRoot, hcases⟩ := rename_cases hrename
  cases hp.symm.trans hsrc
  cases hq.symm.trans hdst
  rw [inode?_of_nodes hroot hi] at hinode
  cases hinode
  have hnodes : d'.nodes y = some i ∧ (d'.inodes i).kind = (d.inodes i).kind := by
    rcases hcases with ⟨hsame, rfl⟩ | ⟨-, -, ⟨-, rfl⟩ | ⟨hdir, -⟩⟩
    · exact ⟨hsame.symm.trans hi, rfl⟩
    · exact ⟨by rw [moveFile_nodes, if_pos rfl, hi], rfl⟩
    · cases hdata.symm.trans hdir
  rw [Holds, kindAt_of_nodes hdstRoot hnodes.1, hnodes.2, hdata, hbefore]

/-- What is in another file than the one that is written to stays. -/
theorem Holds.copied_aside
    {n : Option ℕ} (h : b.Holds d l x) (hl : l ∈ b.files) (hcopy : d.copyFile n p q = some d')
    (hx : ∀ y i, d.place q = some y → d.nodes y = some i → d.nodes x ≠ some i) :
  b.Holds d' l x
  := by
  obtain ⟨_, _, dst, _, _, -, -, hdst, -, -, hwrite⟩ := copyFile_cases hcopy
  apply h.kept hl (Set.mem_singleton x)
  apply (Kept.refl {x} d).writeAt ?_ hwrite
  intro i _ hi x' hx'
  rw [Set.mem_singleton_iff.mp hx']
  exact hx dst i hdst hi

/-- A file is copied to the other place, when there is nothing or another regular file. -/
theorem Holds.copied
    (h : b.Holds d l x) (hl : l ∈ b.files) (hcopy : d.copyFile none p q = some d')
    (hp : d.place p = some x) (hq : d.place q = some y)
    (hy : ∀ i, d.nodes y = some i → d.nodes x ≠ some i ∧ ∃ old, (d.inodes i).kind = .file old) :
  b.Holds d' l y
  := by
  obtain ⟨i, data, hroot, hi, hdata, hbefore⟩ := h.file hl
  obtain ⟨src, inode, dst, data', written, hsrc, hinode, hdst, hkind, hwritten, hwrite⟩ :=
    copyFile_cases hcopy
  cases hp.symm.trans hsrc
  cases hq.symm.trans hdst
  rw [inode?_of_nodes hroot hi] at hinode
  cases hinode
  cases hdata.symm.trans hkind
  have hne : d.nodes y ≠ d.nodes x := by
    intro heq
    exact (hy i (heq.trans hi)).1 hi
  rw [hwritten rfl hne] at hwrite
  rw [Holds, hbefore]
  rcases writeAt_cases hwrite with ⟨hnone, inode, hnew, rfl⟩ | ⟨j, old, f, hyroot, hj, -, hf, rfl⟩ |
    ⟨-, inode, kind, hinode, hspecial⟩
  · have hnode : (d.create y inode).nodes y = some d.next := by
      rw [create_nodes, if_pos rfl]
    rw [kindAt_of_nodes (inode?_eq_none_iff.mp hnone).1 hnode, create_inodes, if_pos rfl, hnew]
  · have hnode : (d.edit j f).nodes y = some j := hj
    rw [kindAt_of_nodes hyroot hnode, edit_inodes, if_pos rfl, hf]
  · have hyroot : y ≠ [] := by
      rintro rfl
      cases hinode
      cases hspecial
    obtain ⟨j, hj, rfl⟩ := nodes_of_inode? hyroot hinode
    obtain ⟨-, old, hold⟩ := hy j hj
    cases hspecial.symm.trans hold

end Backups
