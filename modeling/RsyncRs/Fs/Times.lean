import RsyncRs.Fs.Temporary

/-!
# Modification times

What the time of a file is after it has been set, or after another file has been linked in its
place.
-/

namespace Disk

variable {m : Watch UInt8 FsReply Error (Endpoint Disk UInt8)} {closed : Bool} {d d' : Disk}
  {P E : Disk → Prop} {p q tmp dest : FsPath} {l : Location} {i : ℕ} {t : ℤ} {inode : Inode}

/-- The regular file that the path leads to, if there is one, has the time `t`. -/
def Timed (p : FsPath) (t : ℤ) (d : Disk) : Prop :=
  ∀ info, d.stat (d.place p) = .ok info → info.isFile = true → info.mtime = t

/-- The file with number `i` is a regular one and has the time `t`. -/
structure FileWith (i : ℕ) (t : ℤ) (d : Disk) : Prop where
  lt : i < d.next
  regular : ∃ data, (d.inodes i).kind = .file data
  time : (d.inodes i).mtime = t

/-- The path names the file with number `i` itself. -/
def Names (p : FsPath) (i : ℕ) (d : Disk) : Prop :=
  ∃ l, d.lplace p = some l ∧ d.nodes l = some i

/-- The path names no other file itself than the one with number `i`. -/
def NamesOnly (p : FsPath) (i : ℕ) (d : Disk) : Prop :=
  ∀ l, d.lplace p = some l → d.nodes l ≠ none → d.nodes l = some i

theorem timed_of_place
    (h : ∀ l i, d.place p = some l → l ≠ [] → d.nodes l = some i → (d.inodes i).mtime = t) :
  Timed p t d
  := by
  intro info hinfo hfile
  obtain ⟨l, inode, hl, hinode, rfl⟩ := stat_eq_ok hinfo
  obtain ⟨data, hdata⟩ := isFile_metadataAt hfile
  have hroot : l ≠ [] := by
    rintro rfl
    cases hinode
    cases hdata
  obtain ⟨i, hi, rfl⟩ := nodes_of_inode? hroot hinode
  exact h l i hl hroot hi

theorem Timed.tick
    (h : Timed p t d) :
  Timed p t d.tick
  := h

/-! ### Files that stay -/

theorem FileWith.of_inodes
    (h : FileWith i t d) (d' : Disk) (hnext : d'.next = d.next) (hinodes : d'.inodes = d.inodes) :
  FileWith i t d'
  := ⟨hnext ▸ h.lt, hinodes ▸ h.regular, hinodes ▸ h.time⟩

theorem FileWith.create
    (h : FileWith i t d) (l : Location) (inode : Inode) :
  FileWith i t (d.create l inode)
  := by
  have hsame : (d.create l inode).inodes i = d.inodes i := if_neg h.lt.ne
  exact ⟨h.lt.trans (Nat.lt_succ_self d.next), hsame ▸ h.regular, hsame ▸ h.time⟩

/-- A path that names a regular file with a time names a file with a number. -/
theorem names_of_stat
    {info : Metadata} (h : d.stat (d.lplace p) = .ok info) (hfile : info.isFile = true) :
  ∃ i, FileWith i info.mtime d ∧ Names p i d
  := by
  obtain ⟨l, inode, hl, hinode, rfl⟩ := stat_eq_ok h
  obtain ⟨data, hdata⟩ := isFile_metadataAt hfile
  have hroot : l ≠ [] := by
    rintro rfl
    cases hinode
    cases hdata
  obtain ⟨i, hi, rfl⟩ := nodes_of_inode? hroot hinode
  exact ⟨i, ⟨d.used l i hi, ⟨data, hdata⟩, rfl⟩, l, hl, hi⟩

theorem named_createDirAll
    (hfile : FileWith i t d) (hp : Names p i d) (q : FsPath) :
  FileWith i t (d.createDirAll q).1 ∧ Names p i (d.createDirAll q).1
  := by
  constructor
  · apply createDirAll_keeps ?_ hfile
    exact fun d l inode hd _ _ => hd.create l inode
  · obtain ⟨l, hl, hi⟩ := hp
    have hgrows := grows_createDirAll d q
    exact ⟨l, hgrows.lplace_eq hl, hgrows.nodes l i hi⟩

/-- When what is at a place is taken away, a path names the file that it named before, if any. -/
theorem names_unlink
    (hp : Names p i d) (hroot : l ≠ []) :
  NamesOnly p i (d.unlink (· = l))
  := by
  intro l' hl' hsome
  obtain ⟨l₀, hl₀, hi⟩ := hp
  have hgone : (d.unlink (· = l)).nodes l = none := if_pos (decide_eq_true rfl)
  have hkeep : ∀ l₁, l₁ ≠ l → (d.unlink (· = l)).nodes l₁ = d.nodes l₁ := by
    intro l₁ hl₁
    exact if_neg (by simpa using hl₁)
  have hne : l' ≠ l := by
    rintro rfl
    exact hsome hgone
  have hleaf : (d.unlink (· = l)).shape l = .leaf :=
    shape_of_none (inode?_eq_none_iff.mpr ⟨hroot, hgone⟩)
  have hother : ∀ l₁, l₁ ≠ l → (d.unlink (· = l)).shape l₁ = d.shape l₁ := by
    intro l₁ hl₁
    rw [shape, shape, inode?, inode?, hkeep l₁ hl₁]
    rfl
  cases hl₀.symm.trans (FsPath.resolve_taken hleaf hother hl' hne)
  rw [hkeep l' hne, hi]

/-! ### Times that are set -/

/-- The time of a file is what it has been set to. -/
theorem timed_editAt
    {f : Inode → Inode} (hf : ∀ inode, (f inode).kind = inode.kind)
    (ht : ∀ inode, (f inode).mtime = t) (h : d.editAt (d.place p) f = some d') :
  Timed p t d'
  := by
  apply timed_of_place
  intro l j hl _ hj
  cases hp : d.place p with
  | none =>
      rw [hp] at h
      cases h
  | some l₀ =>
      rw [hp] at h
      obtain ⟨i, hi, h⟩ := Option.bind_eq_some_iff.mp h
      cases h
      have hshape : (d.edit i f).shape = d.shape := shape_edit (congrArg FileKind.shape (hf _))
      rw [place, hshape] at hl
      cases hp.symm.trans hl
      cases hi.symm.trans hj
      rw [edit_inodes, if_pos rfl]
      exact ht _

/-! ### Files that are linked -/

/-- A link that is put in the place of a file has the time of the file that it is linked to. -/
theorem timed_rename
    (hfile : FileWith i t d) (htmp : Names tmp i d) (h : d.rename tmp dest = some d') :
  Timed dest t d'
  := by
  obtain ⟨data, hdata⟩ := hfile.regular
  obtain ⟨src, hsrc, hi⟩ := htmp
  obtain ⟨src', inode, dst, hsrc', hinode, hdst, hsrcroot, hdstroot, hcases⟩ := rename_cases h
  cases hsrc.symm.trans hsrc'
  cases hinode.symm.trans (inode?_of_nodes hsrcroot hi)
  have hkind : (d.inodes i).kind ≠ .dir := by
    rw [hdata]
    rintro ⟨⟩
  apply timed_of_place
  intro l j hl hroot hj
  rcases hcases with ⟨hsame, rfl⟩ | ⟨-, hne, ⟨-, rfl⟩ | ⟨hdir, -⟩⟩
  · have hnode : d'.nodes dst = some i := hsame ▸ hi
    have hleaf : d'.shape dst = .leaf := by
      rw [shape_of_inode? (inode?_of_nodes hdstroot hnode), hdata]
      rfl
    cases (FsPath.resolve_final hleaf hdst).symm.trans hl
    cases hnode.symm.trans hj
    exact hfile.time
  · have hnode : (d.moveFile src dst).nodes dst = some i := by
      rw [moveFile_nodes, if_pos rfl, hi]
    have hfileshape : ∀ d₁ : Disk, ∀ l₁, d₁.inodes = d.inodes → l₁ ≠ [] → d₁.nodes l₁ = some i →
        d₁.shape l₁ = .leaf := by
      intro d₁ l₁ hinodes hl₁ hi₁
      rw [shape_of_inode? (inode?_of_nodes hl₁ hi₁), hinodes, hdata]
      rfl
    have hleaf : (d.moveFile src dst).shape dst = .leaf := hfileshape _ dst rfl hdstroot hnode
    have hother : ∀ l₁, l₁ ≠ dst → (d.moveFile src dst).shape l₁ = d.shape l₁ := by
      intro l₁ hl₁
      by_cases hsrc : l₁ = src
      · rw [hsrc, hfileshape d src rfl hsrcroot hi]
        apply shape_of_none
        refine inode?_eq_none_iff.mpr ⟨hsrcroot, ?_⟩
        rw [moveFile_nodes, if_neg (hsrc ▸ hl₁), if_pos rfl]
      · rw [shape, shape, inode?, inode?, moveFile_nodes, if_neg hl₁, if_neg hsrc]
        rfl
    cases FsPath.resolve_leaf hleaf hother hdst hl
    cases hnode.symm.trans hj
    exact hfile.time
  · exact absurd hdir hkind

namespace Moves

theorem createNamed
    (q : FsPath) :
  Moves m closed (fun d => FileWith i t d ∧ Names p i d) (Fs.createDirAll q)
    (fun _ d => FileWith i t d ∧ Names p i d) E
  := by
  apply createDirAll_of
  · intro d hd
    obtain ⟨hfile, hnames⟩ := named_createDirAll hd.1 hd.2 q
    exact ⟨hfile.of_inodes _ rfl rfl, hnames⟩
  · exact fun d hd => ⟨hd.1.of_inodes _ rfl rfl, hd.2⟩

theorem removeNamed
    (q : FsPath) :
  Moves m closed (fun d => FileWith i t d ∧ Names p i d) (Fs.removeFile q)
    (fun _ d => FileWith i t d ∧ NamesOnly p i d) E
  := by
  apply removeFile
  · rintro d d' ⟨hfile, hnames⟩ hremove
    obtain ⟨l, inode, hl, hinode, hkind, rfl⟩ := removeFile_cases hremove
    have hroot : l ≠ [] := by
      rintro rfl
      cases hinode
      exact hkind rfl
    exact ⟨hfile.of_inodes _ rfl rfl, names_unlink hnames hroot⟩
  · rintro d msg ⟨hfile, l₀, hl₀, hi⟩
    refine ⟨hfile.of_inodes _ rfl rfl, fun l hl _ => ?_⟩
    cases hl₀.symm.trans hl
    exact hi

theorem linkNamed :
  Moves m closed (fun d => FileWith i t d ∧ NamesOnly p i d) (Fs.hardLink p q)
    (fun r d => r = .ok () → FileWith i t d ∧ Names q i d) E
  := by
  apply hardLink
  · rintro d d' ⟨hfile, honly⟩ hlink _
    obtain ⟨src, inode, dst, j, hj, hsrc, -, hdst, hnode, -, hnone, rfl⟩ := hardLink_cases hlink
    have hsome : d.nodes src ≠ none := by
      rw [hnode]
      rintro ⟨⟩
    cases hnode.symm.trans (honly src hsrc hsome)
    obtain ⟨data, hdata⟩ := hfile.regular
    have hgrows : Grows d (d.link dst i hj) := by
      apply (Grows.refl d).link hnone hj
      rw [hdata]
      rintro _ ⟨⟩
    exact ⟨hfile.of_inodes _ rfl rfl, dst, hgrows.lplace_eq hdst, if_pos rfl⟩
  · rintro d msg _ ⟨⟩

theorem renameNamed :
  Moves m closed (fun d => FileWith i t d ∧ Names tmp i d) (Fs.rename tmp dest)
    (fun r d => r = .ok () → Timed dest t d) E
  := by
  apply rename
  · rintro d d' ⟨hfile, hnames⟩ hrename _
    exact (timed_rename hfile hnames hrename).tick
  · rintro d msg _ ⟨⟩

theorem setTimes_timed :
  Moves m closed P (Fs.setTimes p t) (fun r d => r = .ok () → Timed p t d) E
  := by
  apply call
  intro d r d' _ hanswer hok
  rcases modify_cases hanswer with ⟨d₁, hd₁, -, rfl⟩ | ⟨⟨msg, rfl⟩, -⟩
  · apply Timed.tick
    exact timed_editAt (f := fun inode => { inode with mtime := t, mtimeNsec := 0 })
      (fun _ => rfl) (fun _ => rfl) hd₁
  · cases hok

end Moves

end Disk
