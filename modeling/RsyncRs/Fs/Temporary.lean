import RsyncRs.Fs.Moves

/-!
# Temporary names

A file is put in the place of another one by making it under a temporary name and renaming it.
When the temporary name was free and the other name is not one of those that are to be kept,
then nothing is lost on the way.
-/

namespace Disk

variable {m : Watch UInt8 FsReply Error (Endpoint Disk UInt8)} {closed : Bool}
  {S X : Set Location} {d d' d₀ : Disk} {E : Disk → Prop} {p q tmp dest : FsPath} {l : Location}

/-- Wherever the path may lead, there is nothing. -/
def Free (d : Disk) (p : FsPath) : Prop :=
  ∀ l, d.MayName false p l → d.inode? l = none

/-- There is a file. -/
def Present (d : Disk) (p : FsPath) : Prop :=
  ((d.place p).bind d.inode?).isSome

/-- The paths may not come to name one place. -/
def Apart (d : Disk) (p q : FsPath) : Prop :=
  ∀ l, d.MayName false p l → ¬ d.MayName false q l

/-- The path may not come to name one of the places. -/
def Avoids (d : Disk) (p : FsPath) (S : Set Location) : Prop :=
  ∀ l ∈ S, ¬ d.MayName false p l

/-- There are regular files at the places `S`. -/
def Files (S : Set Location) (d : Disk) : Prop :=
  ∀ l ∈ S, ∃ inode data, d.inode? l = some inode ∧ inode.kind = .file data

theorem Files.ne_none
    (h : Files S d) :
  ∀ l ∈ S, d.inode? l ≠ none
  := by
  intro l hl hnone
  obtain ⟨inode, data, hinode, -⟩ := h l hl
  cases hnone.symm.trans hinode

theorem Files.kept
    (h : Files S d₀) (hkept : Kept S d₀ d) :
  Files S d
  := by
  intro l hl
  obtain ⟨inode, data, hinode, hkind⟩ := h l hl
  have hroot : l ≠ [] := by
    rintro rfl
    cases hinode
    cases hkind
  obtain ⟨i, hi, rfl⟩ := nodes_of_inode? hroot hinode
  obtain ⟨hi', hkind'⟩ := hkept l hl i hi
  exact ⟨_, data, inode?_of_nodes hroot hi', hkind'.trans hkind⟩

/-- The regular files below the place that a path names. -/
def filesBelow (d : Disk) (root : FsPath) : Set Location :=
  { l | (∃ inode data, d.inode? l = some inode ∧ inode.kind = .file data) ∧
    ∃ top, d.place root = some top ∧ top <+: l }

theorem files_filesBelow
    (d : Disk) (root : FsPath) :
  Files (d.filesBelow root) d
  := fun _ hl => hl.1

/-- The path names a regular file itself. -/
def IsFileAt (d : Disk) (p : FsPath) : Prop :=
  ∃ l inode data, d.lplace p = some l ∧ d.inode? l = some inode ∧ inode.kind = .file data

/-- The path names no symbolic link itself. -/
def NoLinkAt (d : Disk) (p : FsPath) : Prop :=
  ∀ l inode, d.lplace p = some l → d.inode? l = some inode → ∀ target, inode.kind ≠ .symlink target

/-- The path names something itself that is no directory. -/
def NoDirAt (d : Disk) (p : FsPath) : Prop :=
  ∃ l inode, d.lplace p = some l ∧ d.inode? l = some inode ∧ inode.kind ≠ .dir

theorem Added.mayName
    (h : Added X d₀ d) (hl : d.lplace p = some l) :
  d₀.MayName false p l
  := ⟨d, h.grows, hl⟩

theorem IsFileAt.noLinkAt
    (h : IsFileAt d p) :
  NoLinkAt d p
  := by
  obtain ⟨l, inode, data, hl, hinode, hkind⟩ := h
  intro l' inode' hl' hinode' target
  cases hl.symm.trans hl'
  cases hinode.symm.trans hinode'
  rw [hkind]
  rintro ⟨⟩

theorem isFileAt_of_stat
    {info : Metadata} (h : d.stat (d.lplace p) = .ok info) (hfile : info.isFile = true) :
  IsFileAt d p
  := by
  obtain ⟨l, inode, hl, hinode, rfl⟩ := stat_eq_ok h
  obtain ⟨data, hkind⟩ := isFile_metadataAt hfile
  exact ⟨l, inode, data, hl, hinode, hkind⟩

theorem Grows.inode?_kind
    {inode : Inode} (h : Grows d d') (hl : d.inode? l = some inode) :
  ∃ inode', d'.inode? l = some inode' ∧ inode'.kind = inode.kind
  := by
  by_cases hroot : l = []
  · rw [inode?, if_pos hroot] at hl ⊢
    cases hl
    exact ⟨_, rfl, rfl⟩
  · obtain ⟨i, hi, rfl⟩ := nodes_of_inode? hroot hl
    exact ⟨_, inode?_of_nodes hroot (h.nodes l i hi), h.kinds i (d.used l i hi)⟩

theorem Stable.of_grows
    {J : Disk → Prop} (h : ∀ d d', J d → Grows d d' → J d') :
  Stable J
  where
  tick d hd := h d _ hd (grows_tick d)
  dirs d p hd := h d _ hd (grows_createDirAll d p)
  edit d i _ hd hf := h d _ hd (grows_edit d i hf)

theorem stable_isFileAt
    (p : FsPath) :
  Stable (IsFileAt · p)
  := by
  apply Stable.of_grows
  rintro d d' ⟨l, inode, data, hl, hinode, hkind⟩ hgrows
  obtain ⟨inode', hinode', hkind'⟩ := hgrows.inode?_kind hinode
  exact ⟨l, inode', data, hgrows.lplace_eq hl, hinode', hkind'.trans hkind⟩

/-! ### Free names -/

/-- What is at a name that was free is no directory that is in the way of other paths. -/
theorem Free.shape_eq_leaf
    (hfree : Free d₀ tmp) (h : Added X d₀ d) {inode : Inode} (hl : d.lplace tmp = some l)
    (hinode : d.inode? l = some inode) (hkind : inode.kind ≠ .dir) :
  d.shape l = .leaf
  := by
  have hplain := h.grows.plain l (hfree l (h.mayName hl))
  rw [shape_of_inode? hinode] at hplain ⊢
  cases hk : inode.kind with
  | dir => exact absurd hk hkind
  | symlink target =>
      rw [hk] at hplain
      exact absurd rfl (hplain target)
  | file data => rfl
  | special kind => rfl

/-- Where a path leads whose name was free. -/
theorem Free.lplace_eq_place
    (hfree : Free d₀ tmp) (h : Added X d₀ d) (hl : d.place tmp = some l) :
  d.lplace tmp = some l ∧ d₀.inode? l = none
  := by
  obtain ⟨l', hl', heq⟩ := exists_lplace hl
  have hnone := hfree l' (h.mayName hl')
  cases heq (h.grows.plain l' hnone)
  exact ⟨hl', hnone⟩

theorem noDirAt_writeAt
    {perm : Option (Fin 4096)} {data : List UInt8} (hl : d.lplace p = some l)
    (h : d.writeAt l perm data = some d') :
  NoDirAt d' p
  := by
  rcases writeAt_cases h with ⟨hnone, inode, hkind, rfl⟩ | ⟨i, old, f, hroot, hi, hold, hf, rfl⟩ |
    ⟨rfl, inode, kind, hinode, hkind⟩
  · have hgrows : Grows d (d.create l inode) := by
      apply (Grows.refl d).create hnone
      rw [hkind]
      rintro _ ⟨⟩
    have hnodes : (d.create l inode).nodes l = some d.next := if_pos rfl
    refine ⟨l, _, hgrows.lplace_eq hl, inode?_of_nodes (inode?_eq_none_iff.mp hnone).1 hnodes, ?_⟩
    rw [create_inodes, if_pos rfl, hkind]
    rintro ⟨⟩
  · have hshape : (d.edit i f).shape = d.shape := by
      apply shape_edit
      rw [hf, hold]
      rfl
    have hnodes : (d.edit i f).nodes l = some i := hi
    refine ⟨l, _, ?_, inode?_of_nodes hroot hnodes, ?_⟩
    · rw [lplace, hshape]
      exact hl
    · rw [edit_inodes, if_pos rfl, hf]
      rintro ⟨⟩
  · refine ⟨l, inode, hl, hinode, ?_⟩
    rw [hkind]
    rintro ⟨⟩

namespace Moves

/-! ### Calls with temporary names -/

/-- What was left at a temporary name is removed. -/
theorem removeTmp
    (hfree : Free d₀ tmp) :
  Moves m closed (Added X d₀) (Fs.orIgnore (Fs.removeFile tmp)) (fun _ => Added X d₀) E
  := by
  apply orIgnore
  apply removeFile
  · intro d d' hd hremove
    obtain ⟨l, inode, hl, -, -, rfl⟩ := removeFile_cases hremove
    exact (hd.unlink_place (hfree l (hd.mayName hl))).tick
  · intro d msg hd
    exact hd.tick

/-- What was left at a temporary name is removed. Then another path names no link unless it did
before. -/
theorem removeTmp_noLinkAt
    (hfree : Free d₀ tmp) (p : FsPath) :
  Moves m closed (fun d => Added X d₀ d ∧ IsFileAt d p) (Fs.orIgnore (Fs.removeFile tmp))
    (fun _ d => Added X d₀ d ∧ NoLinkAt d p) E
  := by
  apply orIgnore
  apply removeFile
  · rintro d d' ⟨hd, hp⟩ hremove
    obtain ⟨l, inode, hl, hinode, hkind, rfl⟩ := removeFile_cases hremove
    refine ⟨(hd.unlink_place (hfree l (hd.mayName hl))).tick, ?_⟩
    have hshape := shape_unlink_leaf (hfree.shape_eq_leaf hd hl hinode hkind)
    intro l' inode' hl' hinode'
    have hl'' : (d.unlink (· = l)).lplace p = some l' := hl'
    rw [lplace, hshape] at hl''
    apply hp.noLinkAt l' inode' hl''
    by_cases heq : l' = l
    · have hnone : (d.unlink (· = l)).inode? l' = some inode' := hinode'
      by_cases hroot : l' = []
      · rw [inode?, if_pos hroot] at hnone ⊢
        exact hnone
      · rw [inode?, if_neg hroot, unlink_nodes, if_pos (decide_eq_true heq)] at hnone
        cases hnone
    · have hne : ¬ decide (l' = l) = true := by simpa using heq
      have hsome : (d.unlink (· = l)).inode? l' = some inode' := hinode'
      rw [inode?, unlink_nodes, if_neg hne] at hsome
      exact hsome
  · rintro d msg ⟨hd, hp⟩
    exact ⟨hd.tick, hp.noLinkAt⟩

/-- A file is linked to a temporary name. -/
theorem linkTmp
    (hfree : Free d₀ tmp) (hX : ∀ l, d₀.MayName false tmp l → l ∈ X) :
  Moves m closed (fun d => Added X d₀ d ∧ NoLinkAt d p) (Fs.hardLink p tmp)
    (fun r d => Added X d₀ d ∧ (r = .ok () → NoDirAt d tmp)) E
  := by
  apply hardLink
  · rintro d d' ⟨hd, hp⟩ hlink
    obtain ⟨src, inode, dst, i, hi, hsrc, hinode, hdst, hnode, hkind, hnone, rfl⟩ :=
      hardLink_cases hlink
    have hroot : src ≠ [] := by
      intro hroot
      rw [inode?, if_pos hroot] at hinode
      cases hinode
      exact hkind rfl
    rw [inode?_of_nodes hroot hnode] at hinode
    cases hinode
    have hplain := hp src _ hsrc (inode?_of_nodes hroot hnode)
    have hmay := hd.mayName hdst
    refine ⟨(hd.link (hfree dst hmay) (hX dst hmay) hi hplain).tick, fun _ => ?_⟩
    have hgrows : Grows d (d.link dst i hi) := (Grows.refl d).link hnone hi hplain
    have hnodes : (d.link dst i hi).nodes dst = some i := if_pos rfl
    exact ⟨dst, _, hgrows.lplace_eq hdst,
      inode?_of_nodes (inode?_eq_none_iff.mp hnone).1 hnodes, hkind⟩
  · rintro d msg ⟨hd, -⟩
    exact ⟨hd.tick, by rintro ⟨⟩⟩

/-- A file is copied to a temporary name. -/
theorem copyToTmp
    (hfree : Free d₀ tmp) (hX : ∀ l, d₀.MayName false tmp l → l ∉ X) :
  Moves m closed (Added X d₀) (Fs.copyFile p tmp)
    (fun r d => Added X d₀ d ∧ (r = .ok () → NoDirAt d tmp)) E
  := by
  apply copyFile
  · intro d d' n r hd hcopy _
    obtain ⟨src, inode, dst, data, written, -, -, hdst, -, -, hwrite⟩ := copyFile_cases hcopy
    obtain ⟨hl, hnone⟩ := hfree.lplace_eq_place hd hdst
    have hadded := hd.writeAt hnone (hX dst (hd.mayName hl)) hwrite
    have hnodir : NoDirAt d' tmp := noDirAt_writeAt hl hwrite
    exact ⟨hadded.tick, fun _ => hnodir⟩
  · intro d msg hd
    exact ⟨hd.tick, by rintro ⟨⟩⟩

/-- A file is made under a temporary name. -/
theorem createTmp
    (hfree : Free d₀ tmp) (hX : ∀ l, d₀.MayName false tmp l → l ∉ X) :
  Moves m closed (Added X d₀) (Fs.createFile tmp)
    (fun r d => Added X d₀ d ∧ (r = .ok () → NoDirAt d tmp)) E
  := by
  apply createFile
  · intro d d' hd hcreate
    obtain ⟨l, hplace, hwrite⟩ := createFile_cases hcreate
    obtain ⟨hl, hnone⟩ := hfree.lplace_eq_place hd hplace
    have hnodir : NoDirAt d' tmp := noDirAt_writeAt hl hwrite
    exact ⟨(hd.writeAt hnone (hX l (hd.mayName hl)) hwrite).tick, fun _ => hnodir⟩
  · intro d msg hd
    exact ⟨hd.tick, by rintro ⟨⟩⟩

/-- A file is written under a temporary name. -/
theorem writeTmp
    (hfree : Free d₀ tmp) (hX : ∀ l, d₀.MayName false tmp l → l ∉ X) (data : List UInt8) :
  Moves m closed (Added X d₀) (Fs.writeFile tmp data)
    (fun r d => Added X d₀ d ∧ (r = .ok () → NoDirAt d tmp)) E
  := by
  apply writeFile
  · intro d d' n r hd hwritten _
    obtain ⟨l, written, hplace, -, -, hwrite⟩ := writeFile_cases hwritten
    obtain ⟨hl, hnone⟩ := hfree.lplace_eq_place hd hplace
    have hnodir : NoDirAt d' tmp := noDirAt_writeAt hl hwrite
    exact ⟨(hd.writeAt hnone (hX l (hd.mayName hl)) hwrite).tick, fun _ => hnodir⟩
  · intro d msg hd
    exact ⟨hd.tick, by rintro ⟨⟩⟩

/-- What is under a temporary name is put in the place of another file. -/
theorem renameTmp
    (hfree : Free d₀ tmp) (hdest : ∀ l ∈ S, ¬ d₀.MayName false dest l)
    (hS : ∀ l ∈ S, d₀.inode? l ≠ none) :
  Moves m closed (fun d => Added X d₀ d ∧ NoDirAt d tmp) (Fs.rename tmp dest)
    (fun r d => (r = .ok () → Kept S d₀ d) ∧ (r ≠ .ok () → Added X d₀ d)) E
  := by
  apply rename
  · rintro d d' ⟨hd, l, inode, hl, hinode, hkind⟩ hrename
    refine ⟨fun _ => ?_, fun h => absurd rfl h⟩
    obtain ⟨src, inode', dst, hsrc, hinode', hdst, -, -, hcases⟩ := rename_cases hrename
    cases hl.symm.trans hsrc
    cases hinode.symm.trans hinode'
    have hkept : Kept S d₀ d := hd.kept S
    rcases hcases with ⟨-, rfl⟩ | ⟨-, -, ⟨-, rfl⟩ | ⟨hdir, -⟩⟩
    · exact hkept
    · apply hkept.moveFile
      · exact fun hmem => hS l hmem (hfree l (hd.mayName hl))
      · exact fun hmem => hdest dst hmem (hd.mayName hdst)
    · exact absurd hdir hkind
  · rintro d msg ⟨hd, -⟩
    exact ⟨by rintro ⟨⟩, fun _ => hd.tick⟩

end Moves

end Disk
