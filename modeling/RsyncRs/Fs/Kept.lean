import Mathlib.Data.Set.Basic
import RsyncRs.Fs.Grows

/-!
# What calls leave as it is

A call changes the places that its paths name and the files that it writes to. What is at other
places, and written in other files, is kept.
-/

namespace Disk

variable {S X : Set Location} {d d' d₀ d₁ d₂ : Disk} {l src dst : Location} {i : ℕ}
  {inode : Inode} {p q : FsPath}

/-! ### Places that are kept -/

/-- The files at the places in `S` are still there, with the same content. -/
def Kept (S : Set Location) (d₁ d₂ : Disk) : Prop :=
  ∀ l ∈ S, ∀ i, d₁.nodes l = some i →
    d₂.nodes l = some i ∧ (d₂.inodes i).kind = (d₁.inodes i).kind

namespace Kept

theorem refl
    (S : Set Location) (d : Disk) :
  Kept S d d
  := fun _ _ _ hi => ⟨hi, rfl⟩

theorem trans
    (h₁ : Kept S d₀ d₁) (h₂ : Kept S d₁ d₂) :
  Kept S d₀ d₂
  := by
  intro l hl i hi
  obtain ⟨hi₁, hkind₁⟩ := h₁ l hl i hi
  obtain ⟨hi₂, hkind₂⟩ := h₂ l hl i hi₁
  exact ⟨hi₂, hkind₂.trans hkind₁⟩

theorem of_grows
    (S : Set Location) (h : Grows d₁ d₂) :
  Kept S d₁ d₂
  := fun l _ i hi => ⟨h.nodes l i hi, h.kinds i (d₁.used l i hi)⟩

theorem unlink
    (h : Kept S d₀ d) {gone : Location → Bool} (hgone : ∀ l ∈ S, gone l = false) :
  Kept S d₀ (d.unlink gone)
  := by
  intro l hl i hi
  obtain ⟨hi', hkind⟩ := h l hl i hi
  refine ⟨?_, hkind⟩
  rw [unlink_nodes, hgone l hl]
  exact hi'

theorem unlink_place
    (h : Kept S d₀ d) (hl : l ∉ S) :
  Kept S d₀ (d.unlink (· = l))
  := by
  apply h.unlink
  intro l' hl'
  exact decide_eq_false fun heq => hl (heq ▸ hl')

theorem moveFile
    (h : Kept S d₀ d) (hsrc : src ∉ S) (hdst : dst ∉ S) :
  Kept S d₀ (d.moveFile src dst)
  := by
  intro l hl i hi
  obtain ⟨hi', hkind⟩ := h l hl i hi
  refine ⟨?_, hkind⟩
  have hne : l ≠ dst := fun heq => hdst (heq ▸ hl)
  have hne' : l ≠ src := fun heq => hsrc (heq ▸ hl)
  rw [moveFile_nodes, if_neg hne, if_neg hne', hi']

theorem link
    (h : Kept S d₀ d) (hl : d.inode? l = none) (hi : i < d.next) :
  Kept S d₀ (d.link l i hi)
  := by
  intro l' hl' j hj
  obtain ⟨hj', hkind⟩ := h l' hl' j hj
  refine ⟨?_, hkind⟩
  have hne : l' ≠ l := by
    rintro rfl
    rw [(inode?_eq_none_iff.mp hl).2] at hj'
    cases hj'
  rw [link_nodes, if_neg hne, hj']

theorem create
    (h : Kept S d₀ d) (hl : d.inode? l = none) :
  Kept S d₀ (d.create l inode)
  := by
  intro l' hl' j hj
  obtain ⟨hj', hkind⟩ := h l' hl' j hj
  have hne : l' ≠ l := by
    rintro rfl
    rw [(inode?_eq_none_iff.mp hl).2] at hj'
    cases hj'
  constructor
  · rw [create_nodes, if_neg hne, hj']
  · rw [create_inodes, if_neg (d.used l' j hj').ne, hkind]

theorem edit
    (h : Kept S d₀ d) {f : Inode → Inode} (hf : ∀ inode, (f inode).kind = inode.kind) :
  Kept S d₀ (d.edit i f)
  := h.trans (of_grows S (grows_edit d i hf))

/-- Writing at a place changes no file that is elsewhere. -/
theorem writeAt
    (h : Kept S d₀ d) (helse : ∀ i, l ≠ [] → d.nodes l = some i → ∀ l' ∈ S, d.nodes l' ≠ some i)
    {perm : Option (Fin 4096)} {data : List UInt8} (hd : d.writeAt l perm data = some d') :
  Kept S d₀ d'
  := by
  rcases writeAt_cases hd with ⟨hnone, inode, -, rfl⟩ | ⟨i, old, f, hroot, hi, -, -, rfl⟩ |
    ⟨rfl, -⟩
  · exact h.create hnone
  · intro l' hl' j hj
    obtain ⟨hj', hkind⟩ := h l' hl' j hj
    refine ⟨hj', ?_⟩
    have hne : j ≠ i := by
      rintro rfl
      exact helse j hroot hi l' hl' hj'
    rw [edit_inodes, if_neg hne, hkind]
  · exact h

end Kept

/-! ### Steps that add -/

/-- The second file system has grown out of the first one. New places hold new files, except for
those in `X`, which may hold old ones. -/
structure Added (X : Set Location) (d₀ d : Disk) : Prop where
  grows : Grows d₀ d
  fresh : ∀ l i, d₀.inode? l = none → d.nodes l = some i → d₀.next ≤ i ∨ l ∈ X

namespace Added

theorem refl
    (X : Set Location) (d : Disk) :
  Added X d d
  := by
  refine ⟨Grows.refl d, fun l i hl hi => ?_⟩
  rw [(inode?_eq_none_iff.mp hl).2] at hi
  cases hi

theorem kept
    (h : Added X d₀ d) (S : Set Location) :
  Kept S d₀ d
  := Kept.of_grows S h.grows

theorem tick
    (h : Added X d₀ d) :
  Added X d₀ d.tick
  := ⟨h.grows.tick, h.fresh⟩

/-- A place that is empty was empty. -/
theorem was_empty
    (h : Added X d₀ d) (hl : d.inode? l = none) :
  d₀.inode? l = none
  := by
  obtain ⟨hroot, hnone⟩ := inode?_eq_none_iff.mp hl
  apply inode?_eq_none_iff.mpr ⟨hroot, ?_⟩
  cases hi : d₀.nodes l with
  | none => rfl
  | some i =>
      rw [h.grows.nodes l i hi] at hnone
      cases hnone

theorem create
    (h : Added X d₀ d) (hl : d₀.inode? l = none)
    (hkind : ∀ target, inode.kind ≠ .symlink target) :
  Added X d₀ (d.create l inode)
  := by
  refine ⟨h.grows.create hl hkind, fun l' i hl' hi => ?_⟩
  rw [create_nodes] at hi
  split at hi
  · cases hi
    exact Or.inl h.grows.next
  · exact h.fresh l' i hl' hi

theorem link
    (h : Added X d₀ d) (hl : d₀.inode? l = none) (hX : l ∈ X) (hi : i < d.next)
    (hkind : ∀ target, (d.inodes i).kind ≠ .symlink target) :
  Added X d₀ (d.link l i hi)
  := by
  refine ⟨h.grows.link hl hi hkind, fun l' j hl' hj => ?_⟩
  rw [link_nodes] at hj
  split at hj
  · next heq =>
    rw [heq]
    exact Or.inr hX
  · exact h.fresh l' j hl' hj

theorem unlink_place
    (h : Added X d₀ d) (hl : d₀.inode? l = none) :
  Added X d₀ (d.unlink (· = l))
  := by
  constructor
  · apply h.grows.unlink
    intro l' hl'
    rw [of_decide_eq_true hl', hl]
  · intro l' i hl' hi
    rw [unlink_nodes] at hi
    split at hi
    · cases hi
    · exact h.fresh l' i hl' hi

theorem edit
    (h : Added X d₀ d) {f : Inode → Inode} (hi : d₀.next ≤ i)
    (hf : ∀ target, (f (d.inodes i)).kind ≠ .symlink target) :
  Added X d₀ (d.edit i f)
  := ⟨h.grows.edit_new hi hf, h.fresh⟩

theorem createDirAll
    (h : Added X d₀ d) (p : FsPath) :
  Added X d₀ (d.createDirAll p).1
  := by
  apply createDirAll_keeps ?_ h
  intro d' l inode hadded hnone hkind
  apply hadded.create (hadded.was_empty hnone)
  rw [hkind]
  rintro _ ⟨⟩

/-- Writing at a place that was empty only adds, unless an old file was linked to it. -/
theorem writeAt
    (h : Added X d₀ d) (hl : d₀.inode? l = none) (hX : l ∉ X) {perm : Option (Fin 4096)}
    {data : List UInt8} (hd : d.writeAt l perm data = some d') :
  Added X d₀ d'
  := by
  rcases writeAt_cases hd with ⟨-, inode, hkind, rfl⟩ | ⟨i, old, f, -, hi, -, hf, rfl⟩ | ⟨rfl, -⟩
  · apply h.create hl
    rw [hkind]
    rintro _ ⟨⟩
  · apply h.edit ((h.fresh l i hl hi).resolve_right hX)
    rw [hf]
    rintro _ ⟨⟩
  · exact h

end Added

/-! ### Paths that stay as they are -/

theorem shape_unlink_leaf
    (hl : d.shape l = .leaf) :
  (d.unlink (· = l)).shape = d.shape
  := by
  funext l'
  by_cases heq : l' = l
  · rw [heq, hl]
    by_cases hroot : l = []
    · rw [hroot] at hl
      cases hl
    · apply shape_of_none
      exact inode?_eq_none_iff.mpr ⟨hroot, if_pos (decide_eq_true rfl)⟩
  · have hne : ¬ decide (l' = l) = true := by simpa using heq
    rw [shape, shape, inode?, inode?, unlink_nodes, if_neg hne]
    rfl

theorem shape_edit
    {f : Inode → Inode} (hf : (f (d.inodes i)).kind.shape = (d.inodes i).kind.shape) :
  (d.edit i f).shape = d.shape
  := by
  funext l
  by_cases hroot : l = []
  · rw [shape, shape, inode?, inode?, if_pos hroot, if_pos hroot]
  have hnodes : (d.edit i f).nodes l = d.nodes l := rfl
  rw [shape, shape, inode?, inode?, if_neg hroot, if_neg hroot, hnodes]
  cases d.nodes l with
  | none => rfl
  | some j =>
      rw [Option.map_some, Option.map_some, edit_inodes]
      by_cases hj : j = i
      · rw [if_pos hj, hj]
        exact hf
      · rw [if_neg hj]

end Disk
