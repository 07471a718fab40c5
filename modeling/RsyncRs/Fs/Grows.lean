import RsyncRs.Fs.Effects

/-!
# What calls leave as it is

Most calls only add to a file system. What they may not disturb are the places of files, and what
is written in the files.
-/

namespace Disk

variable {d d₀ d₁ d₂ : Disk} {l : Location} {i : ℕ}

/-! ### Growing file systems -/

/-- Everything that is in the first file system is in the second one, with the same content. What
is new there are no symbolic links. -/
structure Grows (d₁ d₂ : Disk) : Prop where
  cwd : d₂.cwd = d₁.cwd
  next : d₁.next ≤ d₂.next
  nodes : ∀ l i, d₁.nodes l = some i → d₂.nodes l = some i
  kinds : ∀ i < d₁.next, (d₂.inodes i).kind = (d₁.inodes i).kind
  plain : ∀ l, d₁.inode? l = none → ∀ target, d₂.shape l ≠ .link target

namespace Grows

theorem refl
    (d : Disk) :
  Grows d d
  := by
  refine ⟨rfl, le_rfl, fun _ _ h => h, fun _ _ => rfl, ?_⟩
  intro l hl target hshape
  unfold shape at hshape
  rw [hl] at hshape
  cases hshape

/-- What is there is met by paths as before. -/
theorem shape_eq
    (h : Grows d₁ d₂) (hl : d₁.inode? l ≠ none) :
  d₂.shape l = d₁.shape l
  := by
  by_cases hroot : l = []
  · rw [shape, shape, inode?, inode?, if_pos hroot, if_pos hroot]
  · obtain ⟨i, hi⟩ : ∃ i, d₁.nodes l = some i :=
      Option.ne_none_iff_exists'.mp fun hn => hl (inode?_eq_none_iff.mpr ⟨hroot, hn⟩)
    rw [shape, shape, inode?, inode?, if_neg hroot, if_neg hroot, hi, h.nodes l i hi]
    exact congrArg FileKind.shape (h.kinds i (d₁.used l i hi))

theorem trans
    (h₁ : Grows d₀ d₁) (h₂ : Grows d₁ d₂) :
  Grows d₀ d₂
  := by
  refine ⟨h₂.cwd.trans h₁.cwd, h₁.next.trans h₂.next, fun l i h => h₂.nodes l i (h₁.nodes l i h),
    fun i hi => (h₂.kinds i (hi.trans_le h₁.next)).trans (h₁.kinds i hi), ?_⟩
  intro l hl target
  by_cases hl₁ : d₁.inode? l = none
  · exact h₂.plain l hl₁ target
  · rw [h₂.shape_eq hl₁]
    exact h₁.plain l hl target

/-- A change that does not concern the places and contents of files. -/
theorem of_eq
    (d₁ d₂ : Disk) (hcwd : d₂.cwd = d₁.cwd) (hnext : d₂.next = d₁.next)
    (hnodes : d₂.nodes = d₁.nodes)
    (hkinds : ∀ i, (d₂.inodes i).kind = (d₁.inodes i).kind) :
  Grows d₁ d₂
  := by
  refine ⟨hcwd, hnext.ge, fun l i h => by rw [hnodes, h], fun i _ => hkinds i, ?_⟩
  intro l hl target hshape
  obtain ⟨hroot, hnone⟩ := inode?_eq_none_iff.mp hl
  have hl₂ : d₂.inode? l = none := inode?_eq_none_iff.mpr ⟨hroot, hnodes ▸ hnone⟩
  unfold shape at hshape
  rw [hl₂] at hshape
  cases hshape

end Grows

theorem grows_tick
    (d : Disk) :
  Grows d d.tick
  := Grows.of_eq d d.tick rfl rfl rfl fun _ => rfl

theorem Grows.tick
    (h : Grows d₁ d₂) :
  Grows d₁ d₂.tick
  := h.trans (grows_tick d₂)

theorem grows_edit
    (d : Disk) (i : ℕ) {f : Inode → Inode} (hf : ∀ inode, (f inode).kind = inode.kind) :
  Grows d (d.edit i f)
  := by
  apply Grows.of_eq d (d.edit i f) rfl rfl rfl
  intro j
  unfold edit
  dsimp only
  split
  · next hj => rw [hj, hf]
  · rfl

/-- What is done at places where there was nothing, to files that are new, only adds. -/
theorem Grows.of_new
    (h : Grows d₀ d₁) (d₂ : Disk) (hcwd : d₂.cwd = d₁.cwd) (hnext : d₁.next ≤ d₂.next)
    (hnodes : ∀ l, d₀.inode? l ≠ none → d₂.nodes l = d₁.nodes l)
    (hkinds : ∀ i < d₀.next, (d₂.inodes i).kind = (d₁.inodes i).kind)
    (hplain : ∀ l, d₀.inode? l = none → ∀ target, d₂.shape l ≠ .link target) :
  Grows d₀ d₂
  := by
  refine ⟨hcwd.trans h.cwd, h.next.trans hnext, ?_, fun i hi => (hkinds i hi).trans (h.kinds i hi),
    hplain⟩
  intro l i hi
  rw [hnodes l, h.nodes l i hi]
  intro hnone
  rw [(inode?_eq_none_iff.mp hnone).2] at hi
  cases hi

theorem Grows.create
    (h : Grows d₀ d₁) (hl : d₀.inode? l = none) {inode : Inode}
    (hkind : ∀ target, inode.kind ≠ .symlink target) :
  Grows d₀ (d₁.create l inode)
  := by
  have hroot := (inode?_eq_none_iff.mp hl).1
  apply h.of_new (d₁.create l inode) rfl (Nat.le_succ _)
  · intro l' hl'
    exact if_neg fun heq : l' = l => hl' (heq ▸ hl)
  · intro i hi
    have hne : i ≠ d₁.next := (hi.trans_le h.next).ne
    exact congrArg Inode.kind (if_neg hne)
  · intro l' hl' target hshape
    by_cases heq : l' = l
    · rw [heq] at hshape
      simp only [shape, inode?, hroot, Disk.create, if_true, if_false, Option.map_some] at hshape
      cases hkind' : inode.kind with
      | symlink target => exact hkind target hkind'
      | _ =>
          rw [hkind'] at hshape
          cases hshape
    · have hroot' := (inode?_eq_none_iff.mp hl').1
      apply h.plain l' hl' target
      rw [← hshape]
      simp only [shape, inode?, hroot', Disk.create, heq, if_false]
      cases hn : d₁.nodes l' with
      | none => rfl
      | some i =>
          have hne : i ≠ d₁.next := (d₁.used l' i hn).ne
          simp only [Option.map_some, if_neg hne]

theorem Grows.link
    (h : Grows d₀ d₁) (hl : d₀.inode? l = none) (hi : i < d₁.next)
    (hkind : ∀ target, (d₁.inodes i).kind ≠ .symlink target) :
  Grows d₀ (d₁.link l i hi)
  := by
  have hroot := (inode?_eq_none_iff.mp hl).1
  apply h.of_new (d₁.link l i hi) rfl le_rfl
  · intro l' hl'
    exact if_neg fun heq : l' = l => hl' (heq ▸ hl)
  · exact fun _ _ => rfl
  · intro l' hl' target hshape
    by_cases heq : l' = l
    · rw [heq] at hshape
      simp only [shape, inode?, hroot, Disk.link, if_true, if_false, Option.map_some] at hshape
      cases hkind' : (d₁.inodes i).kind with
      | symlink target => exact hkind target hkind'
      | _ =>
          rw [hkind'] at hshape
          cases hshape
    · have hroot' := (inode?_eq_none_iff.mp hl').1
      apply h.plain l' hl' target
      rw [← hshape]
      simp only [shape, inode?, hroot', Disk.link, heq, if_false]

theorem Grows.unlink
    (h : Grows d₀ d₁) {gone : Location → Bool} (hgone : ∀ l, gone l = true → d₀.inode? l = none) :
  Grows d₀ (d₁.unlink gone)
  := by
  apply h.of_new (d₁.unlink gone) rfl le_rfl
  · intro l hl
    exact if_neg fun hg => hl (hgone l hg)
  · exact fun _ _ => rfl
  · intro l hl target hshape
    have hroot := (inode?_eq_none_iff.mp hl).1
    simp only [shape, inode?, hroot, Disk.unlink, if_false] at hshape
    by_cases hg : gone l = true
    · rw [if_pos hg] at hshape
      cases hshape
    · rw [if_neg hg] at hshape
      apply h.plain l hl target
      rw [← hshape]
      simp only [shape, inode?, hroot, if_false]

/-- A new file is written. -/
theorem Grows.edit_new
    (h : Grows d₀ d₁) (hi : d₀.next ≤ i) {f : Inode → Inode}
    (hf : ∀ target, (f (d₁.inodes i)).kind ≠ .symlink target) :
  Grows d₀ (d₁.edit i f)
  := by
  apply h.of_new (d₁.edit i f) rfl le_rfl
  · exact fun _ _ => rfl
  · intro j hj
    have hne : j ≠ i := (hj.trans_le hi).ne
    exact congrArg Inode.kind (if_neg hne)
  · intro l hl target hshape
    have hroot := (inode?_eq_none_iff.mp hl).1
    cases hn : d₁.nodes l with
    | none => simp [shape, inode?, hroot, edit, hn] at hshape
    | some j =>
        simp only [shape, inode?, hroot, edit, hn, if_false, Option.map_some] at hshape
        by_cases hj : j = i
        · rw [if_pos hj] at hshape
          cases hkind : (f (d₁.inodes i)).kind with
          | symlink target => exact hf target hkind
          | _ =>
              rw [hkind] at hshape
              cases hshape
        · rw [if_neg hj] at hshape
          apply h.plain l hl target
          simp only [shape, inode?, hroot, hn, if_false, Option.map_some]
          exact hshape

/-! ### Paths in growing file systems -/

variable {p : FsPath} {cwd : Location} {parts : List FsPath}

/-- A path that names a place still names it. -/
theorem Grows.lplace_eq
    (h : Grows d₁ d₂) (hl : d₁.lplace p = some l) :
  d₂.lplace p = some l
  := by
  rw [← hl, lplace, lplace, h.cwd]
  apply FsPath.resolve_congr
  intro l' hl'
  rcases FsPath.resolve_met hl l' hl' with hshape | ⟨hlast, -⟩
  · exact h.shape_eq (inode?_ne_none_of_shape hshape)
  · cases hlast

/-- A path that leads to a file still leads to it. -/
theorem Grows.place_eq
    (h : Grows d₁ d₂) (hl : d₁.place p = some l) (hinode : d₁.inode? l ≠ none) :
  d₂.place p = some l
  := by
  rw [← hl, place, place, h.cwd]
  apply FsPath.resolve_congr
  intro l' hl'
  rcases FsPath.resolve_met hl l' hl' with hshape | ⟨-, rfl⟩
  · exact h.shape_eq (inode?_ne_none_of_shape hshape)
  · exact h.shape_eq hinode

theorem exists_lplace
    (hl : d.place p = some l) :
  ∃ l', d.lplace p = some l' ∧ ((∀ target, d.shape l' ≠ .link target) → l' = l)
  := by
  obtain ⟨l', hl', hplain⟩ := FsPath.resolve_last (Option.isSome_iff_exists.mpr ⟨l, hl⟩)
  refine ⟨l', hl', fun h => ?_⟩
  exact Option.some.inj ((hplain h).symm.trans hl)

/-! ### Directories that are made -/

/-- What is kept when a directory is made where there is nothing is kept when all the directories
that some components name are made. -/
theorem createDirs_keeps
    {J : Disk → Prop}
    (h : ∀ d l inode, J d → d.inode? l = none → inode.kind = .dir → J (d.create l inode))
    {d : Disk} (hd : J d) (cur : Location) (parts : List FsPath) :
  J (d.createDirs cur parts).1
  := by
  induction parts generalizing d cur with
  | nil => exact hd
  | cons part rest ih =>
      rw [createDirs]
      split
      · exact hd
      split
      · exact ih hd cur
      split
      · exact ih hd cur.dropLast
      split
      · next hnone =>
        apply ih
        exact h d _ _ hd hnone rfl
      next inode _ =>
      split
      · exact ih hd _
      · split
        · split
          · exact ih hd _
          · exact hd
        · exact hd
      · exact hd

theorem createDirAll_keeps
    {J : Disk → Prop}
    (h : ∀ d l inode, J d → d.inode? l = none → inode.kind = .dir → J (d.create l inode))
    {d : Disk} (hd : J d) (p : FsPath) :
  J (d.createDirAll p).1
  := by
  unfold createDirAll
  split
  · exact hd
  · exact createDirs_keeps h hd _ _

theorem grows_createDirAll
    (d : Disk) (p : FsPath) :
  Grows d (d.createDirAll p).1
  := by
  apply createDirAll_keeps ?_ (Grows.refl d)
  intro d' l inode hgrows hnone hkind
  apply hgrows.trans
  apply (Grows.refl d').create hnone
  rw [hkind]
  rintro _ ⟨⟩

/-- The path may come to name the place, with its last link followed or not. -/
def MayName (d : Disk) (last : Bool) (p : FsPath) (l : Location) : Prop :=
  ∃ d', Grows d d' ∧ FsPath.resolve d'.shape d'.cwd last p = some l

end Disk
