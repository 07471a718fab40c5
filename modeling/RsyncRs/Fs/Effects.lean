import RsyncRs.Fs.Disk

/-!
# What each call does

A call that changes a file system does one thing at the places that its paths name. What it may
do is said once for each call.
-/

namespace Disk

variable {d d' : Disk} {l : Location} {p q : FsPath}

/-! ### Places and files after a change -/

@[simp]
theorem unlink_nodes
    (d : Disk) (gone : Location → Bool) (l : Location) :
  (d.unlink gone).nodes l = if gone l then none else d.nodes l
  := rfl

@[simp]
theorem create_nodes
    (d : Disk) (l l' : Location) (inode : Inode) :
  (d.create l inode).nodes l' = if l' = l then some d.next else d.nodes l'
  := rfl

@[simp]
theorem create_inodes
    (d : Disk) (l : Location) (inode : Inode) (i : ℕ) :
  (d.create l inode).inodes i = if i = d.next then inode else d.inodes i
  := rfl

@[simp]
theorem link_nodes
    (d : Disk) (l l' : Location) (i : ℕ) (hi : i < d.next) :
  (d.link l i hi).nodes l' = if l' = l then some i else d.nodes l'
  := rfl

@[simp]
theorem moveFile_nodes
    (d : Disk) (src dst l : Location) :
  (d.moveFile src dst).nodes l =
    if l = dst then d.nodes src else if l = src then none else d.nodes l
  := rfl

theorem moveDir_nodes
    (d : Disk) (src dst l : Location) :
  (d.moveDir src dst).nodes l =
    if dst <+: l then d.nodes (src ++ l.drop dst.length)
    else if src <+: l then none
    else d.nodes l
  := rfl

@[simp]
theorem edit_inodes
    (d : Disk) (i j : ℕ) (f : Inode → Inode) :
  (d.edit i f).inodes j = if j = i then f (d.inodes i) else d.inodes j
  := rfl

/-! ### What is at a place -/

theorem inode?_eq_none_iff :
  d.inode? l = none ↔ l ≠ [] ∧ d.nodes l = none
  := by
  unfold inode?
  split
  · next h => simp [h]
  · next h => simp [h]

theorem inode?_of_nodes
    {i : ℕ} (hl : l ≠ []) (h : d.nodes l = some i) :
  d.inode? l = some (d.inodes i)
  := by
  rw [inode?, if_neg hl, h, Option.map_some]

theorem nodes_of_inode?
    {inode : Inode} (hl : l ≠ []) (h : d.inode? l = some inode) :
  ∃ i, d.nodes l = some i ∧ d.inodes i = inode
  := by
  rw [inode?, if_neg hl] at h
  exact Option.map_eq_some_iff.mp h

theorem shape_of_inode?
    {inode : Inode} (h : d.inode? l = some inode) :
  d.shape l = inode.kind.shape
  := by
  rw [shape, h]

theorem shape_of_none
    (h : d.inode? l = none) :
  d.shape l = .leaf
  := by
  rw [shape, h]

theorem inode?_ne_none_of_shape
    (h : d.shape l ≠ .leaf) :
  d.inode? l ≠ none
  := fun hnone => h (shape_of_none hnone)

/-! ### One thing at a place -/

/-- A file is made, or an old one is written to. Devices take everything. -/
theorem writeAt_cases
    {perm : Option (Fin 4096)} {data : List UInt8} (h : d.writeAt l perm data = some d') :
  (d.inode? l = none ∧ ∃ inode, inode.kind = .file data ∧ d' = d.create l inode) ∨
    (∃ i old f, l ≠ [] ∧ d.nodes l = some i ∧ (d.inodes i).kind = .file old ∧
      (∀ inode, (f inode).kind = .file data) ∧ d' = d.edit i f) ∨
    (d' = d ∧ ∃ inode kind, d.inode? l = some inode ∧ inode.kind = .special kind)
  := by
  unfold writeAt at h
  split at h
  · next hnone =>
    cases h
    exact Or.inl ⟨hnone, _, rfl, rfl⟩
  next inode hinode =>
  split at h
  · next old i hkind hi =>
    cases h
    have hl : l ≠ [] := by
      intro hroot
      rw [inode?, if_pos hroot] at hinode
      cases hinode
      cases hkind
    rw [inode?_of_nodes hl hi] at hinode
    cases hinode
    exact Or.inr (Or.inl ⟨i, old, _, hl, hi, hkind, fun _ => rfl, rfl⟩)
  · next kind hkind =>
    cases h
    exact Or.inr (Or.inr ⟨rfl, inode, kind, hinode, hkind⟩)
  · cases h

theorem removeFile_cases
    (h : d.removeFile p = some d') :
  ∃ l inode, d.lplace p = some l ∧ d.inode? l = some inode ∧ inode.kind ≠ .dir ∧
    d' = d.unlink (· = l)
  := by
  obtain ⟨l, hl, h⟩ := Option.bind_eq_some_iff.mp h
  obtain ⟨inode, hinode, h⟩ := Option.bind_eq_some_iff.mp h
  split at h
  · cases h
  · next hkind =>
    cases h
    exact ⟨l, inode, hl, hinode, hkind, rfl⟩

theorem removeDir_cases
    (h : d.removeDir p = some d') :
  ∃ l inode, d.lplace p = some l ∧ d.inode? l = some inode ∧ inode.kind = .dir ∧ l ≠ [] ∧
    d.occupied l = false ∧ d' = d.unlink (· = l)
  := by
  obtain ⟨l, hl, h⟩ := Option.bind_eq_some_iff.mp h
  obtain ⟨inode, hinode, h⟩ := Option.bind_eq_some_iff.mp h
  split at h
  · next hand =>
    cases h
    exact ⟨l, inode, hl, hinode, hand.1, hand.2.1, hand.2.2, rfl⟩
  · cases h

theorem removeDirAll_cases
    (h : d.removeDirAll p = some d') :
  ∃ l inode, d.lplace p = some l ∧ d.inode? l = some inode ∧ inode.kind = .dir ∧ l ≠ [] ∧
    d' = d.unlink (l <+: ·)
  := by
  obtain ⟨l, hl, h⟩ := Option.bind_eq_some_iff.mp h
  obtain ⟨inode, hinode, h⟩ := Option.bind_eq_some_iff.mp h
  split at h
  · next hand =>
    cases h
    exact ⟨l, inode, hl, hinode, hand.1, hand.2, rfl⟩
  · cases h

theorem rename_cases
    (h : d.rename p q = some d') :
  ∃ src inode dst, d.lplace p = some src ∧ d.inode? src = some inode ∧ d.lplace q = some dst ∧
    src ≠ [] ∧ dst ≠ [] ∧
    ((d.nodes src = d.nodes dst ∧ d' = d) ∨
      (d.replaces inode dst = true ∧ d.nodes src ≠ d.nodes dst ∧
        ((inode.kind ≠ .dir ∧ d' = d.moveFile src dst) ∨
          inode.kind = .dir ∧ ¬ src <+: dst ∧ d' = d.moveDir src dst)))
  := by
  obtain ⟨src, hsrc, h⟩ := Option.bind_eq_some_iff.mp h
  obtain ⟨inode, hinode, h⟩ := Option.bind_eq_some_iff.mp h
  obtain ⟨dst, hdst, h⟩ := Option.bind_eq_some_iff.mp h
  split at h
  · cases h
  next hroots =>
  rw [not_or] at hroots
  refine ⟨src, inode, dst, hsrc, hinode, hdst, hroots.1, hroots.2, ?_⟩
  split at h
  · next hsame =>
    cases h
    exact Or.inl ⟨hsame, rfl⟩
  next hsame =>
  split at h
  · cases h
  next hreplaces =>
  right
  refine ⟨Bool.eq_true_of_not_eq_false hreplaces, hsame, ?_⟩
  split at h
  · next hkind =>
    cases h
    exact Or.inl ⟨hkind, rfl⟩
  next hkind =>
  split at h
  · cases h
  · next hbelow =>
    cases h
    exact Or.inr ⟨not_not.mp hkind, hbelow, rfl⟩

theorem hardLink_cases
    (h : d.hardLink p q = some d') :
  ∃ src inode dst i, ∃ hi : i < d.next, d.lplace p = some src ∧ d.inode? src = some inode ∧
    d.lplace q = some dst ∧ d.nodes src = some i ∧ inode.kind ≠ .dir ∧ d.inode? dst = none ∧
    d' = d.link dst i hi
  := by
  obtain ⟨src, hsrc, h⟩ := Option.bind_eq_some_iff.mp h
  obtain ⟨inode, hinode, h⟩ := Option.bind_eq_some_iff.mp h
  obtain ⟨dst, hdst, h⟩ := Option.bind_eq_some_iff.mp h
  split at h
  · next i hi =>
    split at h
    · next hand =>
      cases h
      exact ⟨src, inode, dst, i, d.used src i hi, hsrc, hinode, hdst, hi, hand.1, hand.2, rfl⟩
    · cases h
  · cases h

theorem symlink_cases
    {target : FsPath} (h : d.symlink target p = some d') :
  ∃ l inode, d.lplace p = some l ∧ d.inode? l = none ∧ inode.kind = .symlink target ∧
    d' = d.create l inode
  := by
  obtain ⟨l, hl, h⟩ := Option.bind_eq_some_iff.mp h
  split at h
  · next hand =>
    cases h
    exact ⟨l, _, hl, hand.2, rfl, rfl⟩
  · cases h

theorem copyFile_cases
    {n : Option ℕ} (h : d.copyFile n p q = some d') :
  ∃ src inode dst data written, d.place p = some src ∧ d.inode? src = some inode ∧
    d.place q = some dst ∧ inode.kind = .file data ∧
    (n = none → d.nodes dst ≠ d.nodes src → written = data) ∧
    d.writeAt dst (some inode.perm) written = some d'
  := by
  obtain ⟨src, hsrc, h⟩ := Option.bind_eq_some_iff.mp h
  obtain ⟨inode, hinode, h⟩ := Option.bind_eq_some_iff.mp h
  obtain ⟨dst, hdst, h⟩ := Option.bind_eq_some_iff.mp h
  split at h
  · next data hkind =>
    refine ⟨src, inode, dst, data, _, hsrc, hinode, hdst, hkind, ?_, h⟩
    rintro rfl hne
    rw [if_neg hne, Option.getD_none, List.take_length]
  · cases h

theorem createFile_cases
    (h : d.createFile p = some d') :
  ∃ l, d.place p = some l ∧ d.writeAt l none [] = some d'
  := Option.bind_eq_some_iff.mp h

theorem writeFile_cases
    {n : Option ℕ} {data : List UInt8} (h : d.writeFile n p data = some d') :
  ∃ l written, d.place p = some l ∧ d.inode? l ≠ none ∧ (n = none → written = data) ∧
    d.writeAt l none written = some d'
  := by
  obtain ⟨l, hl, h⟩ := Option.bind_eq_some_iff.mp h
  split at h
  · cases h
  · next hnone =>
    refine ⟨l, _, hl, hnone, ?_, h⟩
    rintro rfl
    rw [Option.getD_none, List.take_length]

theorem editAt_cases
    {l : Option Location} {f : Inode → Inode} (h : d.editAt l f = some d') :
  ∃ i, d' = d.edit i f
  := by
  cases l with
  | none => cases h
  | some l =>
      obtain ⟨i, -, h⟩ := Option.bind_eq_some_iff.mp h
      cases h
      exact ⟨i, rfl⟩

/-! ### Answers -/

variable {e : Option Disk} {r : Except String Unit}

theorem modify_cases
    (h : d.modify e = some (r, d')) :
  (∃ d₁, e = some d₁ ∧ r = .ok () ∧ d' = d₁.tick) ∨ ((∃ msg, r = .error msg) ∧ d' = d.tick)
  := by
  unfold modify at h
  split at h
  · next d₁ _ =>
    cases h
    exact Or.inl ⟨d₁, rfl, rfl, rfl⟩
  · cases h
    exact Or.inr ⟨⟨_, rfl⟩, rfl⟩

theorem modifyPart_cases
    {e : Option ℕ → Option Disk} (h : d.modifyPart e = some (r, d')) :
  (∃ n d₁, e n = some d₁ ∧ (r = .ok () → n = none) ∧ d' = d₁.tick) ∨
    ((∃ msg, r = .error msg) ∧ d' = d.tick)
  := by
  unfold modifyPart at h
  split at h
  · split at h
    · next d₁ he =>
      cases h
      exact Or.inl ⟨none, d₁, he, fun _ => rfl, rfl⟩
    · cases h
      exact Or.inr ⟨⟨_, rfl⟩, rfl⟩
  · next n _ =>
    split at h
    · next d₁ he =>
      cases h
      exact Or.inl ⟨some n, d₁, he, nofun, rfl⟩
    · cases h
      exact Or.inr ⟨⟨_, rfl⟩, rfl⟩

theorem attempt_cases
    {α : Type} {a : Option α} {r : Except String α} (h : d.attempt a = some (r, d')) :
  d' = d.tick ∧ ∀ x, r = .ok x → a = some x
  := by
  unfold attempt at h
  split at h
  · cases h
    refine ⟨rfl, fun x hx => ?_⟩
    cases hx
    rfl
  · cases h
    exact ⟨rfl, nofun⟩

/-! ### Metadata -/

/-- The metadata of a file say that it is a regular one. -/
theorem isFile_metadataAt
    {inode : Inode} (h : (d.metadataAt l inode).isFile = true) :
  ∃ data, inode.kind = .file data
  := by
  have hmode := of_decide_eq_true h
  rw [metadataAt] at hmode
  dsimp only at hmode
  rw [FsTree.fromMode_or] at hmode
  cases hkind : inode.kind with
  | file data => exact ⟨data, rfl⟩
  | dir =>
      rw [hkind, typeBits] at hmode
      exact absurd hmode (by decide)
  | symlink target =>
      rw [hkind, typeBits] at hmode
      exact absurd hmode (by decide)
  | special kind =>
      rw [hkind, typeBits] at hmode
      cases kind <;> exact absurd hmode (by decide)

theorem stat_eq_ok
    {l : Option Location} {info : Metadata} (h : d.stat l = .ok info) :
  ∃ l' inode, l = some l' ∧ d.inode? l' = some inode ∧ info = d.metadataAt l' inode
  := by
  unfold stat at h
  split at h
  · next l' =>
    split at h
    · next inode hinode =>
      cases h
      exact ⟨l', inode, rfl, hinode, rfl⟩
    · cases h
  · cases h

end Disk
