import RsyncRs.Fs.Moves

/-!
# Changes at one place

Most calls change what is at one place. The paths that do not go through that place lead where
they led before, and what they lead to is the same.
-/

namespace Disk

variable {d d' d₀ d₁ d₂ : Disk} {l l' : Location} {p q : FsPath} {last : Bool}

/-- The places on the way of a path. -/
def trail (d : Disk) (last : Bool) (p : FsPath) : List Location :=
  FsPath.trail d.shape d.cwd last p

/-- The second file system is the first one except at one place, and except for new files. -/
structure ChangedAt (l : Location) (d₁ d₂ : Disk) : Prop where
  cwd : d₂.cwd = d₁.cwd
  next : d₁.next ≤ d₂.next
  nodes : ∀ l', l' ≠ l → d₂.nodes l' = d₁.nodes l'
  kinds : ∀ i < d₁.next, (d₂.inodes i).kind = (d₁.inodes i).kind

/-- What kind of file is at a place. -/
def kindAt (d : Disk) (l : Location) : Option FileKind :=
  (d.inode? l).map Inode.kind

theorem kindAt_eq_none_iff :
  d.kindAt l = none ↔ d.inode? l = none
  := Option.map_eq_none_iff

theorem kindAt_of_nodes
    {i : ℕ} (hl : l ≠ []) (h : d.nodes l = some i) :
  d.kindAt l = some (d.inodes i).kind
  := by
  rw [kindAt, inode?_of_nodes hl h, Option.map_some]

theorem kindAt_moveFile
    {src dst : Location} (hsrc : src ≠ []) (hdst : dst ≠ []) :
  (d.moveFile src dst).kindAt dst = d.kindAt src
  := by
  rw [kindAt, kindAt, inode?, inode?, if_neg hsrc, if_neg hdst, moveFile_nodes, if_pos rfl]
  rfl

theorem kindAt_moveFile_of_ne
    {src dst : Location} (hsrc : l ≠ src) (hdst : l ≠ dst) :
  (d.moveFile src dst).kindAt l = d.kindAt l
  := by
  rw [kindAt, kindAt, inode?, inode?, moveFile_nodes, if_neg hdst, if_neg hsrc]
  rfl

theorem shape_eq_kindAt
    (d : Disk) (l : Location) :
  d.shape l = ((d.kindAt l).map FileKind.shape).getD .leaf
  := by
  unfold shape kindAt
  cases d.inode? l with
  | none => rfl
  | some inode => rfl

theorem Kept.kindAt
    {S : Set Location} {d d' : Disk} {x : Location} {kind : FileKind} (h : Kept S d d')
    (hx : x ∈ S) (hkind : d.kindAt x = some kind) :
  d'.kindAt x = some kind
  := by
  by_cases hroot : x = []
  · rw [hroot] at hkind ⊢
    exact hkind
  · obtain ⟨inode, hinode, rfl⟩ := Option.map_eq_some_iff.mp hkind
    obtain ⟨i, hi, rfl⟩ := nodes_of_inode? hroot hinode
    obtain ⟨hi', hkind'⟩ := h x hx i hi
    rw [kindAt_of_nodes hroot hi', hkind']

namespace ChangedAt

theorem refl
    (l : Location) (d : Disk) :
  ChangedAt l d d
  := ⟨rfl, le_rfl, fun _ _ => rfl, fun _ _ => rfl⟩

theorem trans
    (h₁ : ChangedAt l d₀ d₁) (h₂ : ChangedAt l d₁ d₂) :
  ChangedAt l d₀ d₂
  where
  cwd := h₂.cwd.trans h₁.cwd
  next := h₁.next.trans h₂.next
  nodes l' hl' := (h₂.nodes l' hl').trans (h₁.nodes l' hl')
  kinds i hi := (h₂.kinds i (hi.trans_le h₁.next)).trans (h₁.kinds i hi)

theorem tick
    (h : ChangedAt l d₁ d₂) :
  ChangedAt l d₁ d₂.tick
  := ⟨h.cwd, h.next, h.nodes, h.kinds⟩

theorem unlink
    (d : Disk) (l : Location) :
  ChangedAt l d (d.unlink (· = l))
  := by
  refine ⟨rfl, le_rfl, fun l' hl' => ?_, fun _ _ => rfl⟩
  exact if_neg (by simpa using hl')

theorem link
    (d : Disk) (l : Location) (i : ℕ) (hi : i < d.next) :
  ChangedAt l d (d.link l i hi)
  := ⟨rfl, le_rfl, fun _ hl' => if_neg hl', fun _ _ => rfl⟩

theorem create
    (d : Disk) (l : Location) (inode : Inode) :
  ChangedAt l d (d.create l inode)
  where
  cwd := rfl
  next := Nat.le_succ _
  nodes _ hl' := if_neg hl'
  kinds _ hi := congrArg Inode.kind (if_neg hi.ne)

/-! ### What paths that pass elsewhere lead to -/

theorem kindAt_eq
    (h : ChangedAt l d₁ d₂) (hl' : l' ≠ l) :
  d₂.kindAt l' = d₁.kindAt l'
  := by
  by_cases hroot : l' = []
  · rw [kindAt, kindAt, inode?, inode?, if_pos hroot, if_pos hroot]
  · have hnodes := h.nodes l' hl'
    cases hn : d₁.nodes l' with
    | none =>
        rw [hn] at hnodes
        rw [kindAt_eq_none_iff.mpr (inode?_eq_none_iff.mpr ⟨hroot, hnodes⟩),
          kindAt_eq_none_iff.mpr (inode?_eq_none_iff.mpr ⟨hroot, hn⟩)]
    | some i =>
        rw [hn] at hnodes
        rw [kindAt_of_nodes hroot hnodes, kindAt_of_nodes hroot hn, h.kinds i (d₁.used l' i hn)]

theorem shape_eq
    (h : ChangedAt l d₁ d₂) (hl' : l' ≠ l) :
  d₂.shape l' = d₁.shape l'
  := by
  rw [shape_eq_kindAt, shape_eq_kindAt, h.kindAt_eq hl']

theorem resolve_eq
    (h : ChangedAt l d₁ d₂) (hl : l ∉ d₁.trail last p) :
  FsPath.resolve d₂.shape d₂.cwd last p = FsPath.resolve d₁.shape d₁.cwd last p
  := by
  rw [h.cwd]
  apply FsPath.resolve_congr
  rintro l' hl'
  apply h.shape_eq
  rintro rfl
  exact hl hl'

theorem lplace_eq
    (h : ChangedAt l d₁ d₂) (hl : l ∉ d₁.trail false p) :
  d₂.lplace p = d₁.lplace p
  := h.resolve_eq hl

theorem place_eq
    (h : ChangedAt l d₁ d₂) (hl : l ∉ d₁.trail true p) :
  d₂.place p = d₁.place p
  := h.resolve_eq hl

end ChangedAt

/-! ### Places that are cleared -/

theorem kindAt_cleared
    {inode : Inode} (hinode : d.inode? l = some inode) (hkind : inode.kind ≠ .dir) :
  (d.unlink (· = l)).kindAt l = none
  := by
  have hroot : l ≠ [] := by
    rintro rfl
    cases hinode
    exact hkind rfl
  exact kindAt_eq_none_iff.mpr (inode?_eq_none_iff.mpr ⟨hroot, by simp⟩)

theorem shape_cleared
    {inode : Inode} (hinode : d.inode? l = some inode) (hkind : inode.kind ≠ .dir) :
  (d.unlink (· = l)).shape l = .leaf
  := shape_of_none (kindAt_eq_none_iff.mp (kindAt_cleared hinode hkind))

/-- Where a place has been cleared, the paths that do not name it name what they named before. -/
theorem resolve_cleared
    {inode : Inode} (hinode : d.inode? l = some inode) (hkind : inode.kind ≠ .dir)
    (h : FsPath.resolve (d.unlink (· = l)).shape d.cwd last p = some l') (hne : l' ≠ l) :
  FsPath.resolve d.shape d.cwd last p = some l'
  := FsPath.resolve_taken (shape_cleared hinode hkind)
      (fun _ hne => (ChangedAt.unlink d l).shape_eq hne) h hne

/-- A path that names a place does not go through one where there is nothing. -/
theorem not_mem_trail_of_lplace
    (hl : d.inode? l = none) (hp : d.lplace p = some l') :
  l ∉ d.trail false p
  := by
  intro hmem
  rcases FsPath.resolve_met hp l hmem with hshape | ⟨hlast, -⟩
  · exact hshape (shape_of_none hl)
  · cases hlast

theorem not_mem_trail_of_place
    (hl : d.inode? l = none) (hp : d.place p = some l') (hl' : d.inode? l' ≠ none) :
  l ∉ d.trail true p
  := by
  intro hmem
  rcases FsPath.resolve_met hp l hmem with hshape | ⟨-, rfl⟩
  · exact hshape (shape_of_none hl)
  · exact hl' hl

/-- A path that names a place where there is nothing leads there. -/
theorem place_of_lplace
    (hl : d.inode? l = none) (hp : d.lplace p = some l) :
  d.place p = some l
  := FsPath.resolve_final (shape_of_none hl) hp

end Disk
